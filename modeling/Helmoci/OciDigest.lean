import Helmoci.RustText

/-!
# Canonical digests

A digest is a text with the proof that it is canonical, so no other one can be
built. The hash function itself is a parameter of the modules that use it.
-/
namespace Helmoci.OciDigest
open RustText

def isLowerHex (c : Char) : Bool := c.isDigit || ('a' ≤ c && c ≤ 'f')

/-- The form `sha256:<64 lowercase hex>`. -/
def isCanonical (s : Str) : Bool :=
  match s.dropPrefix? (str "sha256:") with
  | some hexPart => byteLen hexPart == 64 && hexPart.all isLowerHex
  | none => false

structure Digest where
  asStr : Str
  canonical : isCanonical asStr = true
deriving DecidableEq

def Digest.parse (s : Str) : Option Digest :=
  if h : isCanonical s = true then some ⟨s, h⟩ else none

@[simp] theorem Digest.parse_asStr (d : Digest) : Digest.parse d.asStr = some d := by
  simp [Digest.parse, d.canonical]

theorem Digest.parse_eq_some {s : Str} {d : Digest} (h : Digest.parse s = some d) :
    s = d.asStr := by
  unfold Digest.parse at h
  split at h
  · cases h
    rfl
  · contradiction

/-- Everything after the prefix is a hexadecimal digit. -/
theorem Digest.asStr_eq (d : Digest) : ∃ hexPart : Str, hexPart.all isLowerHex = true ∧
    byteLen hexPart = 64 ∧ d.asStr = str "sha256:" ++ hexPart := by
  have h := d.canonical
  unfold isCanonical at h
  split at h
  · rename_i hexPart hp
    simp only [Bool.and_eq_true, beq_iff_eq] at h
    refine ⟨hexPart, h.2, h.1, ?_⟩
    obtain ⟨p, hs, hp⟩ := List.dropPrefix?_eq_some_iff.mp hp
    rw [hs, eq_of_beq hp]
  · contradiction

theorem Digest.asStr_ne_nil (d : Digest) : d.asStr ≠ [] := by
  obtain ⟨hexPart, -, -, hd⟩ := d.asStr_eq
  have hp : str "sha256:" ≠ [] := by decide
  simp [hd, hp]

theorem Digest.slash_not_mem (d : Digest) : '/' ∉ d.asStr := by
  obtain ⟨hexPart, hx, -, hd⟩ := d.asStr_eq
  rw [hd, List.mem_append, not_or]
  refine ⟨by decide, ?_⟩
  intro hm
  exact absurd (List.all_eq_true.mp hx _ hm) (by decide)

end Helmoci.OciDigest
