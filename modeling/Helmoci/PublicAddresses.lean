import Helmoci.RustText

/-!
# Addresses of public hosts

A resolver's answer is passed on if it has addresses and all of them are public. The tests on
an address are bit patterns. Beside them stand the ranges of the address formats in which an
address of the fourth version is carried by one of the sixth.
-/
namespace Helmoci.PublicAddresses
open RustText

structure Ipv4Addr where
  a : UInt8
  b : UInt8
  c : UInt8
  d : UInt8
deriving DecidableEq, Repr

namespace Ipv4Addr

def isPrivate (ip : Ipv4Addr) : Bool :=
  ip.a == 10 || ip.a == 172 && (16 ≤ ip.b && ip.b ≤ 31) || ip.a == 192 && ip.b == 168

def isLoopback (ip : Ipv4Addr) : Bool := ip.a == 127

def isLinkLocal (ip : Ipv4Addr) : Bool := ip.a == 169 && ip.b == 254

def isDocumentation (ip : Ipv4Addr) : Bool :=
  ip.a == 192 && ip.b == 0 && ip.c == 2 || ip.a == 198 && ip.b == 51 && ip.c == 100 ||
    ip.a == 203 && ip.b == 0 && ip.c == 113

def isBroadcast (ip : Ipv4Addr) : Bool := ip == ⟨255, 255, 255, 255⟩

def isMulticast (ip : Ipv4Addr) : Bool := 224 ≤ ip.a && ip.a ≤ 239

/-- The address of a number of thirty-two bits. -/
def ofNat (n : ℕ) : Ipv4Addr :=
  ⟨UInt8.ofNat (n / 2 ^ 24), UInt8.ofNat (n / 2 ^ 16), UInt8.ofNat (n / 2 ^ 8), UInt8.ofNat n⟩

end Ipv4Addr

/-- The segments of the address. -/
structure Ipv6Addr where
  s₀ : UInt16
  s₁ : UInt16
  s₂ : UInt16
  s₃ : UInt16
  s₄ : UInt16
  s₅ : UInt16
  s₆ : UInt16
  s₇ : UInt16
deriving DecidableEq, Repr

namespace Ipv6Addr

def segments (ip : Ipv6Addr) : List UInt16 :=
  [ip.s₀, ip.s₁, ip.s₂, ip.s₃, ip.s₄, ip.s₅, ip.s₆, ip.s₇]

/-- `u128::from_be_bytes` -/
def value (ip : Ipv6Addr) : ℕ := ip.segments.foldl (fun n s => 65536 * n + s.toNat) 0

def isUnspecified (ip : Ipv6Addr) : Bool := ip.value == 0

def isLoopback (ip : Ipv6Addr) : Bool := ip.value == 1

def isMulticast (ip : Ipv6Addr) : Bool := ip.s₀ &&& 0xff00 == 0xff00

end Ipv6Addr

inductive IpAddr where
  | v4 (ip : Ipv4Addr)
  | v6 (ip : Ipv6Addr)
deriving DecidableEq, Repr

structure SocketAddr where
  ip : IpAddr
  port : UInt16
deriving DecidableEq, Repr

section Classification

def isPublicIpv4 (ip : Ipv4Addr) : Bool :=
  !(ip.a == 0 || ip.isPrivate || (ip.a == 100 && ip.b &&& 0b11000000 == 0b01000000) ||
    ip.isLoopback || ip.isLinkLocal ||
    (ip.a == 192 && ip.b == 0 && ip.c == 0 && ip.d != 9 && ip.d != 10) ||
    ip.isDocumentation || (ip.a == 198 && ip.b &&& 0xfe == 18) || 240 ≤ ip.a ||
    ip.isBroadcast || ip.isMulticast)

def ietfException (ip : Ipv6Addr) : Bool :=
  ip.value == 0x20010001000000000000000000000001 ||
    ip.value == 0x20010001000000000000000000000002 ||
    (ip.s₀ == 0x2001 && ip.s₁ == 3) || (ip.s₀ == 0x2001 && ip.s₁ == 4 && ip.s₂ == 0x112) ||
    (ip.s₀ == 0x2001 && (0x20 ≤ ip.s₁ && ip.s₁ ≤ 0x3f))

def ietfAssignment (ip : Ipv6Addr) : Bool :=
  ip.s₀ == 0x2001 && ip.s₁ < 0x200 && !ietfException ip

def documentation (ip : Ipv6Addr) : Bool :=
  (ip.s₀ == 0x2001 && ip.s₁ == 0x0db8) || (ip.s₀ == 0x3fff && ip.s₁ &&& 0xf000 == 0)

def isPublicIpv6 (ip : Ipv6Addr) : Bool :=
  !(ip.isUnspecified || ip.isLoopback ||
    (ip.s₀ == 0 && ip.s₁ == 0 && ip.s₂ == 0 && ip.s₃ == 0 && ip.s₄ == 0 && ip.s₅ == 0xffff) ||
    (ip.s₀ == 0x64 && ip.s₁ == 0xff9b && ip.s₂ == 1) ||
    (ip.s₀ == 0x100 && ip.s₁ == 0 && ip.s₂ == 0 && ip.s₃ == 0) || ietfAssignment ip ||
    ip.s₀ == 0x2002 || documentation ip || ip.s₀ == 0x5f00 ||
    ip.s₀ &&& 0xfe00 == 0xfc00 || ip.s₀ &&& 0xffc0 == 0xfe80 || ip.s₀ &&& 0xffc0 == 0xfec0 ||
    ip.isMulticast)

def isPublicIp : IpAddr → Bool
  | .v4 ip => isPublicIpv4 ip
  | .v6 ip => isPublicIpv6 ip

end Classification

section Resolving

/-- An error of the resolver behind this one, or its own. -/
inductive ResolveError (E : Type) where
  | inner (e : E)
  | other (text : Str)
deriving DecidableEq, Repr

variable {E : Type}

/-- `PublicDnsResolver::resolve` -/
def resolve (inner : Str → Except E (List SocketAddr)) (hostname : Str) :
    Except (ResolveError E) (List SocketAddr) :=
  match inner hostname with
  | .error e => .error (.inner e)
  | .ok addresses =>
    if addresses.isEmpty || addresses.any fun addr => !isPublicIp addr.ip then
      .error (.other (str "DNS for " ++ hostname ++
        str " returned no addresses or a non-public address"))
    else .ok addresses

theorem resolve_eq_ok_iff {inner : Str → Except E (List SocketAddr)} {hostname : Str}
    {addresses : List SocketAddr} :
    resolve inner hostname = .ok addresses ↔ inner hostname = .ok addresses ∧ addresses ≠ [] ∧
      ∀ addr ∈ addresses, isPublicIp addr.ip = true := by
  unfold resolve
  cases inner hostname with
  | error e => simp
  | ok found =>
      have hcheck : (found.isEmpty || found.any fun addr => !isPublicIp addr.ip) = false ↔
          found ≠ [] ∧ ∀ addr ∈ found, isPublicIp addr.ip = true := by simp
      simp only [Except.ok.injEq]
      by_cases hpublic : found ≠ [] ∧ ∀ addr ∈ found, isPublicIp addr.ip = true
      · rw [if_neg (by rw [hcheck.mpr hpublic]; exact Bool.false_ne_true), Except.ok.injEq]
        constructor
        · intro h
          exact ⟨h, h ▸ hpublic⟩
        · intro h
          exact h.1
      · rw [if_pos (by rw [← Bool.not_eq_false, hcheck]; exact hpublic)]
        simp only [reduceCtorEq, false_iff]
        intro ⟨h, hrest⟩
        exact hpublic (h ▸ hrest)

end Resolving

section Ranges

/-- The addresses that begin with the same bits. -/
structure Range where
  base : ℕ
  length : ℕ

def Range.Contains (r : Range) (n : ℕ) : Prop :=
  n / 2 ^ (128 - r.length) = r.base / 2 ^ (128 - r.length)

/-- The formats that carry an address of the fourth version. A tunnel's address names a server
and, with its bits turned over, a client. -/
inductive Embedding where
  | mapped | compatible | sixToFour | teredoServer | teredoClient | nat64
deriving DecidableEq, Repr

namespace Embedding

def range : Embedding → Range
  | mapped => ⟨0xffff00000000, 96⟩
  | compatible => ⟨0, 96⟩
  | sixToFour => ⟨0x20020000000000000000000000000000, 16⟩
  | teredoServer | teredoClient => ⟨0x20010000000000000000000000000000, 32⟩
  | nat64 => ⟨0x0064ff9b000000000000000000000000, 96⟩

/-- The address that is carried. -/
def address (format : Embedding) (ip : Ipv6Addr) : Ipv4Addr :=
  match format with
  | mapped | compatible | nat64 => .ofNat (ip.value % 2 ^ 32)
  | sixToFour => .ofNat (ip.value / 2 ^ 80 % 2 ^ 32)
  | teredoServer => .ofNat (ip.value / 2 ^ 64 % 2 ^ 32)
  | teredoClient => .ofNat (2 ^ 32 - 1 - ip.value % 2 ^ 32)

/-- The formats whose whole range is kept out. -/
def isListed : Embedding → Bool
  | mapped | sixToFour | teredoServer | teredoClient => true
  | compatible | nat64 => false

end Embedding

theorem value_eq (ip : Ipv6Addr) : ip.value =
    ip.s₀.toNat * 2 ^ 112 + ip.s₁.toNat * 2 ^ 96 + ip.s₂.toNat * 2 ^ 80 + ip.s₃.toNat * 2 ^ 64 +
      ip.s₄.toNat * 2 ^ 48 + ip.s₅.toNat * 2 ^ 32 + ip.s₆.toNat * 2 ^ 16 + ip.s₇.toNat := by
  simp only [Ipv6Addr.value, Ipv6Addr.segments, List.foldl_cons, List.foldl_nil]
  omega

/-- The segments that an address of such a format has. -/
theorem segments_of_contains {format : Embedding} {ip : Ipv6Addr}
    (h : format.range.Contains ip.value) :
    match format with
    | .mapped => ip = ⟨0, 0, 0, 0, 0, 0xffff, ip.s₆, ip.s₇⟩
    | .compatible => ip = ⟨0, 0, 0, 0, 0, 0, ip.s₆, ip.s₇⟩
    | .sixToFour => ip.s₀ = 0x2002
    | .teredoServer | .teredoClient => ip.s₀ = 0x2001 ∧ ip.s₁ = 0
    | .nat64 => ip = ⟨0x64, 0xff9b, 0, 0, 0, 0, ip.s₆, ip.s₇⟩ := by
  obtain ⟨s₀, s₁, s₂, s₃, s₄, s₅, s₆, s₇⟩ := ip
  have h₀ := s₀.toNat_lt
  have h₁ := s₁.toNat_lt
  have h₂ := s₂.toNat_lt
  have h₃ := s₃.toNat_lt
  have h₄ := s₄.toNat_lt
  have h₅ := s₅.toNat_lt
  have h₆ := s₆.toNat_lt
  have h₇ := s₇.toNat_lt
  cases format <;>
    simp only [Range.Contains, Embedding.range, value_eq, Nat.reduceSub, Nat.reducePow,
      Nat.reduceDiv, Ipv6Addr.mk.injEq, ← UInt16.toNat_inj, and_true, UInt16.reduceToNat] at h ⊢ <;>
    omega

/-- Of these formats no address is public, whatever it carries. -/
theorem isPublicIpv6_of_isListed {format : Embedding} {ip : Ipv6Addr}
    (hlisted : format.isListed = true) (h : format.range.Contains ip.value) :
    isPublicIpv6 ip = false := by
  have hsegments := segments_of_contains h
  -- a tunnel's range is an assignment without exceptions
  have tunnel : ip.s₀ = 0x2001 ∧ ip.s₁ = 0 → isPublicIpv6 ip = false := by
    intro ⟨h₀, h₁⟩
    have hvalue := value_eq ip
    have h₂ := ip.s₂.toNat_lt
    have h₃ := ip.s₃.toNat_lt
    have h₄ := ip.s₄.toNat_lt
    have h₅ := ip.s₅.toNat_lt
    have h₆ := ip.s₆.toNat_lt
    have h₇ := ip.s₇.toNat_lt
    rw [h₀, h₁] at hvalue
    simp only [UInt16.reduceToNat, Nat.reducePow] at hvalue h₂ h₃ h₄ h₅ h₆ h₇
    have hone : ip.value ≠ 0x20010001000000000000000000000001 := by omega
    have htwo : ip.value ≠ 0x20010001000000000000000000000002 := by omega
    have hassigned : ietfAssignment ip = true := by
      simp [ietfAssignment, ietfException, h₀, h₁, hone, htwo]
    simp [isPublicIpv6, hassigned]
  cases format with
  | mapped =>
      rw [hsegments]
      simp [isPublicIpv6]
  | compatible => cases hlisted
  | sixToFour =>
      have h₀ : ip.s₀ = 0x2002 := hsegments
      simp [isPublicIpv6, h₀]
  | teredoServer => exact tunnel hsegments
  | teredoClient => exact tunnel hsegments
  | nat64 => cases hlisted

/-- Only the unspecified address and the loopback address are kept out of the compatible ones. -/
theorem isPublicIpv6_compatible {ip : Ipv6Addr}
    (h : Embedding.compatible.range.Contains ip.value) :
    isPublicIpv6 ip = true ↔ ip.value ≠ 0 ∧ ip.value ≠ 1 := by
  have hsegments : ip = ⟨0, 0, 0, 0, 0, 0, ip.s₆, ip.s₇⟩ := segments_of_contains h
  obtain ⟨n, hn⟩ : ∃ n, n = ip.value := ⟨_, rfl⟩
  rw [← hn]
  simp only [isPublicIpv6, Ipv6Addr.isUnspecified, Ipv6Addr.isLoopback, ← hn]
  rw [hsegments]
  simp [ietfAssignment, documentation, Ipv6Addr.isMulticast]

/-- Every address of the translation range is public. -/
theorem isPublicIpv6_nat64 {ip : Ipv6Addr} (h : Embedding.nat64.range.Contains ip.value) :
    isPublicIpv6 ip = true := by
  have hsegments : ip = ⟨0x64, 0xff9b, 0, 0, 0, 0, ip.s₆, ip.s₇⟩ := segments_of_contains h
  have hzero : ip.value ≠ 0 := by
    simp only [Range.Contains, Embedding.range] at h
    omega
  have hone : ip.value ≠ 1 := by
    simp only [Range.Contains, Embedding.range] at h
    omega
  simp only [isPublicIpv6, Ipv6Addr.isUnspecified, Ipv6Addr.isLoopback, beq_eq_false_iff_ne.mpr hzero,
    beq_eq_false_iff_ne.mpr hone]
  rw [hsegments]
  simp only [ietfAssignment, documentation, Ipv6Addr.isMulticast]
  rfl

end Ranges

section Results

/-- An answer passes exactly if it has addresses and all are public. Of the formats that carry an
address of the fourth version, a mapped one and the two tunnels' never pass, the translation
range always does, and of the compatible ones all but two do. -/
theorem embedded_addresses :
    (∀ (E : Type) (inner : Str → Except E (List SocketAddr)) (hostname : Str)
      (addresses : List SocketAddr), resolve inner hostname = .ok addresses ↔
        inner hostname = .ok addresses ∧ addresses ≠ [] ∧
          ∀ addr ∈ addresses, isPublicIp addr.ip = true) ∧
      ∀ (format : Embedding) (ip : Ipv6Addr), format.range.Contains ip.value →
        (format.isListed = true → isPublicIp (.v6 ip) = false) ∧
        (format = .compatible → (isPublicIp (.v6 ip) = true ↔ ip.value ≠ 0 ∧ ip.value ≠ 1)) ∧
        (format = .nat64 → isPublicIp (.v6 ip) = true) := by
  constructor
  · intro E inner hostname addresses
    exact resolve_eq_ok_iff
  · intro format ip h
    refine ⟨fun hlisted => isPublicIpv6_of_isListed hlisted h, ?_, ?_⟩
    · rintro rfl
      exact isPublicIpv6_compatible h
    · rintro rfl
      exact isPublicIpv6_nat64 h

/-- The address `64:ff9b::127.0.0.1`. -/
def translatedLoopback : Ipv6Addr := ⟨0x64, 0xff9b, 0, 0, 0, 0, 0x7f00, 1⟩

/-- The address `::127.0.0.1`. -/
def compatibleLoopback : Ipv6Addr := ⟨0, 0, 0, 0, 0, 0, 0x7f00, 1⟩

/-- Both addresses carry the loopback address, and an answer of them passes. -/
theorem loopback_resolved :
    let answer : List SocketAddr := [⟨.v6 translatedLoopback, 443⟩, ⟨.v6 compatibleLoopback, 443⟩]
    let inner : Str → Except Unit (List SocketAddr) := fun _ => .ok answer
    resolve inner (str "charts.example.io") = .ok answer ∧
      Embedding.nat64.range.Contains translatedLoopback.value ∧
      Embedding.nat64.address translatedLoopback = ⟨127, 0, 0, 1⟩ ∧
      Embedding.compatible.range.Contains compatibleLoopback.value ∧
      Embedding.compatible.address compatibleLoopback = ⟨127, 0, 0, 1⟩ ∧
      isPublicIpv4 ⟨127, 0, 0, 1⟩ = false := by
  intro answer inner
  refine ⟨by rfl, by rfl, by decide, by rfl, by decide, by decide⟩

end Results

end Helmoci.PublicAddresses
