import HectorCore.Addr.IpAddr
import HectorCore.Registry.Registry

/-!
# Attributes — attributes by name and by handle

The methods of `lib/processing_engine/Resource.h` that read and write an attribute. Each of them is
there twice: with the `ResourceAttrInfo` of the attribute, and with its name, which is looked up by
`GetAttrInfo` of the registry.

* `AttrInfo` is the interface `ResourceAttrInfo`: its methods are virtual, and may do what they like
  to the resource, and to whatever else they reach (`W`), or not come back.
* A `Method` is one of the methods, with its arguments other than the name. `byHandle` and `byName`
  are the bodies, `byName` with the result of the lookup.
* A vector is returned by its address, which may be `NULL`.

Main result: `by_name_agrees_iff`. Most of the getters use a handle that was not found, and
`DeleteHashItem` deletes the item of the name of the attribute.
-/

namespace HectorCore.Registry

open Addr (IpAddr)

/-- A call that returns an `α`, and leaves something behind. -/
abbrev Effect (W α : Type) := W → Option (α × W)

/-- `ResourceAttrInfo` -/
structure AttrInfo (W : Type) where
  getInt32 : Effect W Int32
  getUInt32 : Effect W UInt32
  getInt64 : Effect W Int64
  getUInt64 : Effect W UInt64
  getDouble : Effect W Float
  getString : Effect W String
  getIpAddr : Effect W IpAddr
  getArrayInt32 : Int32 → Effect W Int32
  getArrayUInt32 : Int32 → Effect W UInt32
  getArrayInt64 : Int32 → Effect W Int64
  getArrayUInt64 : Int32 → Effect W UInt64
  getArrayDouble : Int32 → Effect W Float
  getArrayString : Int32 → Effect W String
  getArrayIpAddr : Int32 → Effect W IpAddr
  getHashInt32 : String → Effect W Int32
  getHashUInt32 : String → Effect W UInt32
  getHashInt64 : String → Effect W Int64
  getHashUInt64 : String → Effect W UInt64
  getHashDouble : String → Effect W Float
  getHashString : String → Effect W String
  getHashIpAddr : String → Effect W IpAddr
  setInt32 : Int32 → Effect W Unit
  setUInt32 : UInt32 → Effect W Unit
  setInt64 : Int64 → Effect W Unit
  setUInt64 : UInt64 → Effect W Unit
  setDouble : Float → Effect W Unit
  setString : String → Effect W Unit
  setIpAddr : IpAddr → Effect W Unit
  setArrayInt32 : Int32 → Int32 → Effect W Unit
  setArrayUInt32 : Int32 → UInt32 → Effect W Unit
  setArrayInt64 : Int32 → Int64 → Effect W Unit
  setArrayUInt64 : Int32 → UInt64 → Effect W Unit
  setArrayDouble : Int32 → Float → Effect W Unit
  setArrayString : Int32 → String → Effect W Unit
  setArrayIpAddr : Int32 → IpAddr → Effect W Unit
  setHashInt32 : String → Int32 → Effect W Unit
  setHashUInt32 : String → UInt32 → Effect W Unit
  setHashInt64 : String → Int64 → Effect W Unit
  setHashUInt64 : String → UInt64 → Effect W Unit
  setHashDouble : String → Float → Effect W Unit
  setHashString : String → String → Effect W Unit
  setHashIpAddr : String → IpAddr → Effect W Unit
  clear : Effect W Unit
  deleteHashItem : String → Effect W Unit
  getCount : Effect W Int32
  getKeys : Effect W (Option (List String))
  getValuesInt32 : Effect W (Option (List Int32))
  getValuesUInt32 : Effect W (Option (List UInt32))
  getValuesInt64 : Effect W (Option (List Int64))
  getValuesUInt64 : Effect W (Option (List UInt64))
  getValuesDouble : Effect W (Option (List Float))
  getValuesString : Effect W (Option (List String))
  getValuesIpAddr : Effect W (Option (List IpAddr))
  deriving Inhabited

/-- A method, and its arguments behind the attribute. -/
inductive Method where
  | getAttrInt32
  | getAttrUInt32
  | getAttrInt64
  | getAttrUInt64
  | getAttrDouble
  | getAttrString
  | getAttrIpAddr
  | getAttrArrayInt32 (index : Int32)
  | getAttrArrayUInt32 (index : Int32)
  | getAttrArrayInt64 (index : Int32)
  | getAttrArrayUInt64 (index : Int32)
  | getAttrArrayDouble (index : Int32)
  | getAttrArrayString (index : Int32)
  | getAttrArrayIpAddr (index : Int32)
  | getAttrHashInt32 (index : String)
  | getAttrHashUInt32 (index : String)
  | getAttrHashInt64 (index : String)
  | getAttrHashUInt64 (index : String)
  | getAttrHashDouble (index : String)
  | getAttrHashString (index : String)
  | getAttrHashIpAddr (index : String)
  | setAttrInt32 (value : Int32)
  | setAttrUInt32 (value : UInt32)
  | setAttrInt64 (value : Int64)
  | setAttrUInt64 (value : UInt64)
  | setAttrDouble (value : Float)
  | setAttrString (value : String)
  | setAttrIpAddr (value : IpAddr)
  | setAttrArrayInt32 (index : Int32) (value : Int32)
  | setAttrArrayUInt32 (index : Int32) (value : UInt32)
  | setAttrArrayInt64 (index : Int32) (value : Int64)
  | setAttrArrayUInt64 (index : Int32) (value : UInt64)
  | setAttrArrayDouble (index : Int32) (value : Float)
  | setAttrArrayString (index : Int32) (value : String)
  | setAttrArrayIpAddr (index : Int32) (value : IpAddr)
  | setAttrHashInt32 (index : String) (value : Int32)
  | setAttrHashUInt32 (index : String) (value : UInt32)
  | setAttrHashInt64 (index : String) (value : Int64)
  | setAttrHashUInt64 (index : String) (value : UInt64)
  | setAttrHashDouble (index : String) (value : Float)
  | setAttrHashString (index : String) (value : String)
  | setAttrHashIpAddr (index : String) (value : IpAddr)
  | clear
  | deleteHashItem (index : String)
  | getCount
  | getKeys
  | getValuesInt32
  | getValuesUInt32
  | getValuesInt64
  | getValuesUInt64
  | getValuesDouble
  | getValuesString
  | getValuesIpAddr

namespace Method

/-- What a method returns. -/
abbrev Result : Method → Type
  | getAttrInt32 | getAttrArrayInt32 _ | getAttrHashInt32 _ => Int32
  | getAttrUInt32 | getAttrArrayUInt32 _ | getAttrHashUInt32 _ => UInt32
  | getAttrInt64 | getAttrArrayInt64 _ | getAttrHashInt64 _ => Int64
  | getAttrUInt64 | getAttrArrayUInt64 _ | getAttrHashUInt64 _ => UInt64
  | getAttrDouble | getAttrArrayDouble _ | getAttrHashDouble _ => Float
  | getAttrString | getAttrArrayString _ | getAttrHashString _ => String
  | getAttrIpAddr | getAttrArrayIpAddr _ | getAttrHashIpAddr _ => IpAddr
  | getCount => Int32
  | getKeys => Option (List String)
  | getValuesInt32 => Option (List Int32)
  | getValuesUInt32 => Option (List UInt32)
  | getValuesInt64 => Option (List Int64)
  | getValuesUInt64 => Option (List UInt64)
  | getValuesDouble => Option (List Float)
  | getValuesString => Option (List String)
  | getValuesIpAddr => Option (List IpAddr)
  | _ => Unit

variable {W : Type}

/-- The methods with a `ResourceAttrInfo`. -/
def byHandle (ai : AttrInfo W) : (m : Method) → Effect W m.Result
  | getAttrInt32 => ai.getInt32
  | getAttrUInt32 => ai.getUInt32
  | getAttrInt64 => ai.getInt64
  | getAttrUInt64 => ai.getUInt64
  | getAttrDouble => ai.getDouble
  | getAttrString => ai.getString
  | getAttrIpAddr => ai.getIpAddr
  | getAttrArrayInt32 index => ai.getArrayInt32 index
  | getAttrArrayUInt32 index => ai.getArrayUInt32 index
  | getAttrArrayInt64 index => ai.getArrayInt64 index
  | getAttrArrayUInt64 index => ai.getArrayUInt64 index
  | getAttrArrayDouble index => ai.getArrayDouble index
  | getAttrArrayString index => ai.getArrayString index
  | getAttrArrayIpAddr index => ai.getArrayIpAddr index
  | getAttrHashInt32 index => ai.getHashInt32 index
  | getAttrHashUInt32 index => ai.getHashUInt32 index
  | getAttrHashInt64 index => ai.getHashInt64 index
  | getAttrHashUInt64 index => ai.getHashUInt64 index
  | getAttrHashDouble index => ai.getHashDouble index
  | getAttrHashString index => ai.getHashString index
  | getAttrHashIpAddr index => ai.getHashIpAddr index
  | setAttrInt32 value => ai.setInt32 value
  | setAttrUInt32 value => ai.setUInt32 value
  | setAttrInt64 value => ai.setInt64 value
  | setAttrUInt64 value => ai.setUInt64 value
  | setAttrDouble value => ai.setDouble value
  | setAttrString value => ai.setString value
  | setAttrIpAddr value => ai.setIpAddr value
  | setAttrArrayInt32 index value => ai.setArrayInt32 index value
  | setAttrArrayUInt32 index value => ai.setArrayUInt32 index value
  | setAttrArrayInt64 index value => ai.setArrayInt64 index value
  | setAttrArrayUInt64 index value => ai.setArrayUInt64 index value
  | setAttrArrayDouble index value => ai.setArrayDouble index value
  | setAttrArrayString index value => ai.setArrayString index value
  | setAttrArrayIpAddr index value => ai.setArrayIpAddr index value
  | setAttrHashInt32 index value => ai.setHashInt32 index value
  | setAttrHashUInt32 index value => ai.setHashUInt32 index value
  | setAttrHashInt64 index value => ai.setHashInt64 index value
  | setAttrHashUInt64 index value => ai.setHashUInt64 index value
  | setAttrHashDouble index value => ai.setHashDouble index value
  | setAttrHashString index value => ai.setHashString index value
  | setAttrHashIpAddr index value => ai.setHashIpAddr index value
  | clear => ai.clear
  | deleteHashItem name => ai.deleteHashItem name
  | getCount => ai.getCount
  | getKeys => ai.getKeys
  | getValuesInt32 => ai.getValuesInt32
  | getValuesUInt32 => ai.getValuesUInt32
  | getValuesInt64 => ai.getValuesInt64
  | getValuesUInt64 => ai.getValuesUInt64
  | getValuesDouble => ai.getValuesDouble
  | getValuesString => ai.getValuesString
  | getValuesIpAddr => ai.getValuesIpAddr

/-- `ai->...` -/
def deref {α : Type} (ai : Option (AttrInfo W)) (call : AttrInfo W → Effect W α) : Effect W α :=
  match ai with
  | some ai => call ai
  | none => fun _ => none

/-- `ai ? ai->... : other` -/
def orElse {α : Type} (ai : Option (AttrInfo W)) (call : AttrInfo W → Effect W α) (other : α) :
    Effect W α :=
  match ai with
  | some ai => call ai
  | none => fun w => some (other, w)

/-- `if (ai) ai->...` -/
def ifFound (ai : Option (AttrInfo W)) (call : AttrInfo W → Effect W Unit) : Effect W Unit :=
  orElse ai call ()

/-- The methods with a name, behind the lookup. -/
def byName (name : String) (ai : Option (AttrInfo W)) : (m : Method) → Effect W m.Result
  | getAttrInt32 => deref ai (·.getInt32)
  | getAttrUInt32 => deref ai (·.getUInt32)
  | getAttrInt64 => deref ai (·.getInt64)
  | getAttrUInt64 => deref ai (·.getUInt64)
  | getAttrDouble => deref ai (·.getDouble)
  | getAttrString => orElse ai (·.getString) ""
  | getAttrIpAddr => deref ai (·.getIpAddr)
  | getAttrArrayInt32 index => deref ai (·.getArrayInt32 index)
  | getAttrArrayUInt32 index => deref ai (·.getArrayUInt32 index)
  | getAttrArrayInt64 index => deref ai (·.getArrayInt64 index)
  | getAttrArrayUInt64 index => deref ai (·.getArrayUInt64 index)
  | getAttrArrayDouble index => deref ai (·.getArrayDouble index)
  | getAttrArrayString index => deref ai (·.getArrayString index)
  | getAttrArrayIpAddr index => deref ai (·.getArrayIpAddr index)
  | getAttrHashInt32 index => deref ai (·.getHashInt32 index)
  | getAttrHashUInt32 index => deref ai (·.getHashUInt32 index)
  | getAttrHashInt64 index => deref ai (·.getHashInt64 index)
  | getAttrHashUInt64 index => deref ai (·.getHashUInt64 index)
  | getAttrHashDouble index => deref ai (·.getHashDouble index)
  | getAttrHashString index => deref ai (·.getHashString index)
  | getAttrHashIpAddr index => deref ai (·.getHashIpAddr index)
  | setAttrInt32 value => ifFound ai (·.setInt32 value)
  | setAttrUInt32 value => ifFound ai (·.setUInt32 value)
  | setAttrInt64 value => ifFound ai (·.setInt64 value)
  | setAttrUInt64 value => ifFound ai (·.setUInt64 value)
  | setAttrDouble value => ifFound ai (·.setDouble value)
  | setAttrString value => ifFound ai (·.setString value)
  | setAttrIpAddr value => ifFound ai (·.setIpAddr value)
  | setAttrArrayInt32 index value => ifFound ai (·.setArrayInt32 index value)
  | setAttrArrayUInt32 index value => ifFound ai (·.setArrayUInt32 index value)
  | setAttrArrayInt64 index value => ifFound ai (·.setArrayInt64 index value)
  | setAttrArrayUInt64 index value => ifFound ai (·.setArrayUInt64 index value)
  | setAttrArrayDouble index value => ifFound ai (·.setArrayDouble index value)
  | setAttrArrayString index value => ifFound ai (·.setArrayString index value)
  | setAttrArrayIpAddr index value => ifFound ai (·.setArrayIpAddr index value)
  | setAttrHashInt32 index value => ifFound ai (·.setHashInt32 index value)
  | setAttrHashUInt32 index value => ifFound ai (·.setHashUInt32 index value)
  | setAttrHashInt64 index value => ifFound ai (·.setHashInt64 index value)
  | setAttrHashUInt64 index value => ifFound ai (·.setHashUInt64 index value)
  | setAttrHashDouble index value => ifFound ai (·.setHashDouble index value)
  | setAttrHashString index value => ifFound ai (·.setHashString index value)
  | setAttrHashIpAddr index value => ifFound ai (·.setHashIpAddr index value)
  | clear => ifFound ai (·.clear)
  -- the name of the attribute, not the index
  | deleteHashItem _ => ifFound ai (·.deleteHashItem name)
  | getCount => orElse ai (·.getCount) (-1)
  | getKeys => orElse ai (·.getKeys) none
  | getValuesInt32 => orElse ai (·.getValuesInt32) none
  | getValuesUInt32 => orElse ai (·.getValuesUInt32) none
  | getValuesInt64 => orElse ai (·.getValuesInt64) none
  | getValuesUInt64 => orElse ai (·.getValuesUInt64) none
  | getValuesDouble => orElse ai (·.getValuesDouble) none
  | getValuesString => orElse ai (·.getValuesString) none
  | getValuesIpAddr => orElse ai (·.getValuesIpAddr) none

/-- The methods that test the result of the lookup. -/
def tests : Method → Bool
  | getAttrInt32 | getAttrArrayInt32 _ | getAttrHashInt32 _ => false
  | getAttrUInt32 | getAttrArrayUInt32 _ | getAttrHashUInt32 _ => false
  | getAttrInt64 | getAttrArrayInt64 _ | getAttrHashInt64 _ => false
  | getAttrUInt64 | getAttrArrayUInt64 _ | getAttrHashUInt64 _ => false
  | getAttrDouble | getAttrArrayDouble _ | getAttrHashDouble _ => false
  | getAttrArrayString _ | getAttrHashString _ => false
  | getAttrIpAddr | getAttrArrayIpAddr _ | getAttrHashIpAddr _ => false
  | _ => true

theorem byName_some (name : String) (ai : AttrInfo W) (m : Method)
    (hDelete : ∀ index, m ≠ deleteHashItem index) : m.byName name (some ai) = m.byHandle ai := by
  cases m with
  | deleteHashItem index => exact absurd rfl (hDelete index)
  | _ => rfl

theorem byName_none (name : String) (m : Method) (w : W) :
    m.byName name none w ≠ none ↔ m.tests = true := by
  cases m <;> simp [byName, deref, ifFound, orElse, tests]

end Method

/-- The registry, and what the methods of the `ResourceAttrInfo`s reach. -/
structure Program (P W : Type) where
  registry : State P (AttrInfo W)
  world : W

namespace Program

variable {P W : Type}

/-- A call with a `ResourceAttrInfo`. -/
def callByHandle (s : Program P W) (m : Method) (ai : AttrInfo W) :
    Option (m.Result × Program P W) :=
  (m.byHandle ai s.world).map fun (r, world) => (r, { s with world })

/-- A call with a name, of a resource with this `GetTypeId()`. -/
def callByName (s : Program P W) (typeId : Int32) (m : Method) (name : String) :
    Option (m.Result × Program P W) :=
  match s.registry.getAttrInfo typeId name with
  | none => none
  | some (ai, registry) =>
    (m.byName name ai s.world).map fun (r, world) => (r, ⟨registry, world⟩)

/-- The call with a name does what the call with the result of the lookup does, and does not use it
if it is `NULL`. -/
structure NameAgrees (s : Program P W) (typeId : Int32) (m : Method) (name : String) : Prop where
  found : ∀ ai registry, s.registry.getAttrInfo typeId name = some (some ai, registry) →
    s.callByName typeId m name = { s with registry }.callByHandle m ai
  null : ∀ registry, s.registry.getAttrInfo typeId name = some (none, registry) →
    s.callByName typeId m name ≠ none

/-- The method tests a result that is `NULL`; and if it is `DeleteHashItem`, it makes no difference
whether the item of the index is deleted or that of the name. -/
structure Forwards (s : Program P W) (typeId : Int32) (m : Method) (name : String) : Prop where
  tests : ∀ registry, s.registry.getAttrInfo typeId name = some (none, registry) → m.tests = true
  index : ∀ ai registry, s.registry.getAttrInfo typeId name = some (some ai, registry) →
    ∀ index, m = .deleteHashItem index →
      ai.deleteHashItem name s.world = ai.deleteHashItem index s.world

variable {s : Program P W} {typeId : Int32} {m : Method} {name : String}

theorem callByName_null {registry : State P (AttrInfo W)}
    (hLookup : s.registry.getAttrInfo typeId name = some (none, registry)) :
    s.callByName typeId m name ≠ none ↔ m.tests = true := by
  rw [callByName, hLookup, ← m.byName_none name s.world]
  exact not_congr Option.map_eq_none_iff

theorem callByName_found {registry : State P (AttrInfo W)} {ai : AttrInfo W}
    (hLookup : s.registry.getAttrInfo typeId name = some (some ai, registry)) :
    s.callByName typeId m name = { s with registry }.callByHandle m ai ↔
      m.byName name (some ai) s.world = m.byHandle ai s.world := by
  rw [callByName, hLookup, callByHandle]
  refine (Option.map_injective ?_).eq_iff
  rintro ⟨r, world⟩ ⟨r', world'⟩ hSame
  cases hSame
  rfl

/-- Only `DeleteHashItem` may forward something else. -/
theorem byName_eq_iff {ai : AttrInfo W} {w : W} :
    m.byName name (some ai) w = m.byHandle ai w ↔
      ∀ index, m = .deleteHashItem index → ai.deleteHashItem name w =
        ai.deleteHashItem index w := by
  by_cases hDelete : ∃ index, m = .deleteHashItem index
  · obtain ⟨index, rfl⟩ := hDelete
    refine ⟨?_, fun h => h index rfl⟩
    rintro hSame _ ⟨⟩
    exact hSame
  · have hOther : ∀ index, m ≠ .deleteHashItem index := fun index hm => hDelete ⟨index, hm⟩
    rw [m.byName_some name ai hOther]
    exact iff_of_true rfl fun index hm => absurd hm (hOther index)

end Program

/-- A call with a name agrees with the call with the handle that the lookup returns, if it forwards
what it is given and tests what it has found. -/
theorem by_name_agrees_iff {P W : Type} (s : Program P W) (typeId : Int32) (m : Method)
    (name : String) : s.NameAgrees typeId m name ↔ s.Forwards typeId m name := by
  constructor
  · rintro ⟨hFound, hNull⟩
    refine ⟨fun registry hLookup => ?_, fun ai registry hLookup => ?_⟩
    · exact (Program.callByName_null hLookup).mp (hNull registry hLookup)
    · exact Program.byName_eq_iff.mp
        ((Program.callByName_found hLookup).mp (hFound ai registry hLookup))
  · rintro ⟨hTests, hIndex⟩
    refine ⟨fun ai registry hLookup => ?_, fun registry hLookup => ?_⟩
    · exact (Program.callByName_found hLookup).mpr
        (Program.byName_eq_iff.mpr (hIndex ai registry hLookup))
    · exact (Program.callByName_null hLookup).mpr (hTests registry hLookup)

/-- A hash with the keys in the list; nothing but `DeleteHashItem` is of interest. -/
def hashOfKeys : AttrInfo (List String) :=
  { (default : AttrInfo (List String)) with
    deleteHashItem := fun key keys => some ((), keys.erase key) }

/-- A registry with one class, that has the hash `tags`, and a resource with the keys `a` and
`b`. -/
def tagged : Program Unit (List String) :=
  ⟨.init [.provides ⟨1, "Tagged", [("tags", hashOfKeys)], (), id⟩] [], ["a", "b"]⟩

/-- `DeleteHashItem("tags", "a")` leaves the key `a` where it is, and `GetAttrInt32("other")` uses a
handle that is `NULL`. -/
theorem by_name_wrong :
    ((tagged.callByName 1 (.deleteHashItem "a") "tags").map (·.2.world) = some ["a", "b"] ∧
      ¬ tagged.NameAgrees 1 (.deleteHashItem "a") "tags") ∧
    (tagged.callByName 1 .getAttrInt32 "other").isNone ∧
      ¬ tagged.NameAgrees 1 .getAttrInt32 "other" := by
  have hKept : (tagged.callByName 1 (.deleteHashItem "a") "tags").map (·.2.world) =
      some ["a", "b"] := by rfl
  have hUsed : tagged.callByName 1 .getAttrInt32 "other" = none := by rfl
  refine ⟨⟨hKept, ?_⟩, by rw [hUsed]; rfl, ?_⟩
  · rintro ⟨hFound, -⟩
    have hSame := hFound hashOfKeys _ rfl
    rw [hSame] at hKept
    exact absurd hKept (by decide)
  · rintro ⟨-, hNull⟩
    exact hNull _ rfl hUsed

end HectorCore.Registry
