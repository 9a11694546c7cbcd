import Helmoci.SortedMembers
import Helmoci.Utf8

/-!
# JSON values

What the JSON library reads and prints. An object is a map in the order of its keys. An
integer that fits into 64 bits is kept as it is, and any other number is a float, of which
only the text is known that is printed for it. Reading and printing are parameters: what is
printed is read back as long as every float in it is.
-/
namespace Helmoci.JsonValues
open RustText Utf8 SortedMembers

inductive Number where
  | unsigned (n : ℕ)
  /-- The number below zero with this absolute value. -/
  | negative (n : ℕ)
  | float (text : Str)
deriving DecidableEq, Repr

inductive Value where
  | null
  | bool (b : Bool)
  | number (n : Number)
  | string (s : Str)
  | array (items : List Value)
  | object (members : List (Str × Value))

/-- What holds of the values inside holds of the value. -/
theorem Value.induct {motive : Value → Prop} (null : motive .null) (bool : ∀ b, motive (.bool b))
    (number : ∀ n, motive (.number n)) (string : ∀ s, motive (.string s))
    (array : ∀ items, (∀ v ∈ items, motive v) → motive (.array items))
    (object : ∀ members, (∀ p ∈ members, motive p.2) → motive (.object members)) :
    ∀ v, motive v
  | .null => null
  | .bool b => bool b
  | .number n => number n
  | .string s => string s
  | .array items => array items fun v _ => induct null bool number string array object v
  | .object members => object members fun p hp =>
      have : sizeOf p.2 < 1 + sizeOf members := by
        have hmem := List.sizeOf_lt_of_mem hp
        have hpair : sizeOf p = 1 + sizeOf p.1 + sizeOf p.2 := rfl
        omega
      induct null bool number string array object p.2

def Value.get (v : Value) (key : Str) : Option Value :=
  match v with
  | .object members => members.lookup key
  | _ => none

/-- `serde_json::from_slice` and `serde_json::to_vec` at a value. -/
structure ValueCrate where
  fromSlice : Bytes → Option Value
  toVec : Value → Bytes

section Floats

mutual

/-- The texts of the floats in a value. -/
def Value.floats : Value → List Str
  | .number (.float text) => [text]
  | .array items => itemFloats items
  | .object members => memberFloats members
  | _ => []

def itemFloats : List Value → List Str
  | [] => []
  | v :: items => v.floats ++ itemFloats items

def memberFloats : List (Str × Value) → List Str
  | [] => []
  | (_, v) :: members => v.floats ++ memberFloats members

end

variable {text : Str}

theorem mem_itemFloats {items : List Value} :
    text ∈ itemFloats items ↔ ∃ v ∈ items, text ∈ v.floats := by
  induction items with
  | nil => simp [itemFloats]
  | cons v items ih => simp [itemFloats, ih]

theorem mem_memberFloats {members : List (Str × Value)} :
    text ∈ memberFloats members ↔ ∃ p ∈ members, text ∈ p.2.floats := by
  induction members with
  | nil => simp [memberFloats]
  | cons p members ih =>
      obtain ⟨key, v⟩ := p
      simp [memberFloats, ih]

theorem memberFloats_insertMember {key s : Str} {members : List (Str × Value)}
    (h : text ∈ memberFloats (insertMember key (.string s) members)) :
    text ∈ memberFloats members := by
  obtain ⟨p, hp, htext⟩ := mem_memberFloats.mp h
  rcases mem_insertMember hp with rfl | hp
  · simp [Value.floats] at htext
  · exact mem_memberFloats.mpr ⟨p, hp, htext⟩

end Floats

def Number.InRange : Number → Prop
  | .unsigned n => n < 2 ^ 64
  | .negative n => 1 ≤ n ∧ n ≤ 2 ^ 63
  | .float _ => True

/-- Its integers are in range, its objects in order, and it goes no deeper than this. -/
inductive Formed : ℕ → Value → Prop
  | null {depth : ℕ} : Formed depth .null
  | bool {depth : ℕ} (b : Bool) : Formed depth (.bool b)
  | number {depth : ℕ} {n : Number} : n.InRange → Formed depth (.number n)
  | string {depth : ℕ} (s : Str) : Formed depth (.string s)
  | array {depth : ℕ} {items : List Value} : 0 < depth → (∀ v ∈ items, Formed depth v) →
      Formed (depth + 1) (.array items)
  | object {depth : ℕ} {members : List (Str × Value)} : 0 < depth →
      (∀ p ∈ members, Formed depth p.2) → Sorted members → Formed (depth + 1) (.object members)

/-- The float that is printed so is read from its text. -/
def Reprinted (json : ValueCrate) (text : Str) : Prop :=
  json.fromSlice (asBytes text) = some (.number (.float text))

/-- What the library's documentation says. The reader of floats may miss the last digit, so
that not every float is reprinted. -/
structure ValueLaws (json : ValueCrate) : Prop where
  formed : ∀ data v, json.fromSlice data = some v → Formed 128 v
  readsBack : ∀ v, Formed 128 v → (∀ text ∈ v.floats, Reprinted json text) →
    json.fromSlice (json.toVec v) = some v

/-- A map that was read is read back from its print, also with another text in it. -/
theorem fromSlice_insertMember {json : ValueCrate} (laws : ValueLaws json) {data : Bytes}
    {members : List (Str × Value)} (h : json.fromSlice data = some (.object members))
    (hfloats : ∀ text ∈ (Value.object members).floats, Reprinted json text) (key s : Str) :
    json.fromSlice (json.toVec (.object (insertMember key (.string s) members))) =
      some (.object (insertMember key (.string s) members)) := by
  apply laws.readsBack
  · cases laws.formed data _ h with
    | object hpos hmembers hsorted =>
        refine .object hpos ?_ hsorted.insertMember
        intro p hp
        rcases mem_insertMember hp with rfl | hp
        · exact .string s
        · exact hmembers p hp
  · intro text htext
    rw [Value.floats] at htext
    exact hfloats text (by rw [Value.floats]; exact memberFloats_insertMember htext)

end Helmoci.JsonValues
