import Webfang.Domain.IpLiterals

/-!
# Forbidden addresses

An IPv6 address that embeds a forbidden IPv4 address is forbidden, and outside the special ranges no
other one is.  The entry guard, the redirect guard and the scan of DNS answers agree on it.
-/

namespace Webfang.Ssrf

/-! ## What is promised -/

/-- The IPv6 addresses that embed an IPv4 address. -/
inductive Embeds : Ipv6Addr → Ipv4Addr → Prop
  | mapped (a b c d : UInt8) :
      Embeds ⟨0, 0, 0, 0, 0, 0xffff, fromBeBytes a b, fromBeBytes c d⟩ ⟨a, b, c, d⟩
  | compatible (a b c d : UInt8) :
      Embeds ⟨0, 0, 0, 0, 0, 0, fromBeBytes a b, fromBeBytes c d⟩ ⟨a, b, c, d⟩
  | nat64 (a b c d : UInt8) :
      Embeds ⟨0x64, 0xff9b, 0, 0, 0, 0, fromBeBytes a b, fromBeBytes c d⟩ ⟨a, b, c, d⟩
  | sixToFour (a b c d : UInt8) (s3 s4 s5 s6 s7 : UInt16) :
      Embeds ⟨0x2002, fromBeBytes a b, fromBeBytes c d, s3, s4, s5, s6, s7⟩ ⟨a, b, c, d⟩

/-- The ranges of loopback, unspecified, unique-local, link-local and Teredo addresses. -/
inductive Special : Ipv6Addr → Prop
  | loopback : Special ⟨0, 0, 0, 0, 0, 0, 0, 1⟩
  | unspecified : Special ⟨0, 0, 0, 0, 0, 0, 0, 0⟩
  | uniqueLocal {ip : Ipv6Addr} (low : 0xfc00 ≤ ip.s0) (high : ip.s0 ≤ 0xfdff) : Special ip
  | linkLocal {ip : Ipv6Addr} (low : 0xfe80 ≤ ip.s0) (high : ip.s0 ≤ 0xfebf) : Special ip
  | teredo {ip : Ipv6Addr} (first : ip.s0 = 0x2001) (second : ip.s1 = 0) : Special ip

/-- The result refuses. -/
def Refuses {ε : Type} (result : Except ε Unit) : Prop := ∃ e, result = .error e

/-- The layers give the same verdict on a host, and on the address it denotes. -/
def LayersAgree (checked : Bool) (disable : Option String) (host : List Char) : Prop :=
  ∃ verdict result, isForbiddenLiteralHost checked host = some verdict ∧
    rejectForbiddenLiteralUrl checked disable (some host) = some result ∧
      (Refuses result ↔ verdict = true) ∧
        ∀ ip, parseIpLiteral checked host = some (some ip) →
          (Refuses (failClosedScan host [ip]) ↔ verdict = true)

/-! ## Segments -/

theorem highByte_fromBeBytes (high low : UInt8) : highByte (fromBeBytes high low) = high := by
  have bound := high.toNat_lt
  have bound' := low.toNat_lt
  rw [← UInt8.toNat_inj, highByte, fromBeBytes, UInt16.toNat_toUInt8, UInt16.toNat_shiftRight,
    UInt16.toNat_ofNat', show (8 : UInt16).toNat % 16 = 8 from rfl, Nat.shiftRight_eq_div_pow]
  omega

theorem lowByte_fromBeBytes (high low : UInt8) : lowByte (fromBeBytes high low) = low := by
  have bound := low.toNat_lt
  rw [← UInt8.toNat_inj, lowByte, fromBeBytes, UInt16.toNat_toUInt8, UInt16.toNat_ofNat']
  omega

theorem fromBeBytes_bytes (segment : UInt16) :
    fromBeBytes (highByte segment) (lowByte segment) = segment := by
  have bound := segment.toNat_lt
  rw [← UInt16.toNat_inj, fromBeBytes, highByte, lowByte, UInt16.toNat_ofNat', UInt16.toNat_toUInt8,
    UInt16.toNat_toUInt8, UInt16.toNat_shiftRight, show (8 : UInt16).toNat % 16 = 8 from rfl,
    Nat.shiftRight_eq_div_pow]
  omega

theorem ofSegments_fromBeBytes (a b c d : UInt8) :
    Ipv4Addr.ofSegments (fromBeBytes a b) (fromBeBytes c d) = ⟨a, b, c, d⟩ := by
  rw [Ipv4Addr.ofSegments, highByte_fromBeBytes, lowByte_fromBeBytes, highByte_fromBeBytes,
    lowByte_fromBeBytes]

/-- A number masked to its high bits loses the low ones. -/
theorem land_high_mask {x low high : Nat} (small : x < 2 ^ (low + high)) :
    x &&& ((2 ^ high - 1) <<< low) = x / 2 ^ low * 2 ^ low := by
  rw [← Nat.shiftRight_eq_div_pow, ← Nat.shiftLeft_eq]
  refine Nat.eq_of_testBit_eq fun i => ?_
  rw [Nat.testBit_and, Nat.testBit_shiftLeft, Nat.testBit_two_pow_sub_one, Nat.testBit_shiftLeft,
    Nat.testBit_shiftRight]
  by_cases above : low ≤ i
  · rw [Nat.add_sub_cancel' above]
    by_cases inside : i - low < high
    · simp [above, inside]
    · have zero : x.testBit i = false := Nat.testBit_lt_two_pow
        (Nat.lt_of_lt_of_le small (Nat.pow_le_pow_right (by decide) (by omega)))
      simp [zero]
  · simp [above]

theorem isIpv6UniqueLocal_iff {v6 : Ipv6Addr} :
    isIpv6UniqueLocal v6 = true ↔ 0xfc00 ≤ v6.s0 ∧ v6.s0 ≤ 0xfdff := by
  have bound := v6.s0.toNat_lt
  have mask : v6.s0.toNat &&& 0xfe00 = v6.s0.toNat / 512 * 512 := @land_high_mask _ 9 7 bound
  rw [isIpv6UniqueLocal, beq_iff_eq, ← UInt16.toNat_inj, UInt16.toNat_and,
    UInt16.le_iff_toNat_le, UInt16.le_iff_toNat_le]
  change v6.s0.toNat &&& 0xfe00 = 0xfc00 ↔ 0xfc00 ≤ v6.s0.toNat ∧ v6.s0.toNat ≤ 0xfdff
  omega

theorem isIpv6LinkLocal_iff {v6 : Ipv6Addr} :
    isIpv6LinkLocal v6 = true ↔ 0xfe80 ≤ v6.s0 ∧ v6.s0 ≤ 0xfebf := by
  have bound := v6.s0.toNat_lt
  have mask : v6.s0.toNat &&& 0xffc0 = v6.s0.toNat / 64 * 64 := @land_high_mask _ 6 10 bound
  rw [isIpv6LinkLocal, beq_iff_eq, ← UInt16.toNat_inj, UInt16.toNat_and,
    UInt16.le_iff_toNat_le, UInt16.le_iff_toNat_le]
  change v6.s0.toNat &&& 0xffc0 = 0xfe80 ↔ 0xfe80 ≤ v6.s0.toNat ∧ v6.s0.toNat ≤ 0xfebf
  omega

/-! ## Embedded addresses -/

variable {v6 : Ipv6Addr} {v4 : Ipv4Addr}

/-- The ranges that are looked at first. -/
def isNative (v6 : Ipv6Addr) : Bool :=
  v6.isLoopback || v6.isUnspecified || isIpv6UniqueLocal v6 || isIpv6LinkLocal v6

theorem isForbiddenV6_of_native (native : isNative v6 = true) : isForbiddenV6 v6 = true :=
  if_pos native

/-- The address that is looked at behind the ranges. -/
def embeddedV4 (v6 : Ipv6Addr) : Option Ipv4Addr :=
  v6.toIpv4.or ((ipv6Nat64EmbeddedV4 v6).or (ipv6To4EmbeddedV4 v6))

theorem isForbiddenV6_of_embedded (native : isNative v6 = false) (inner : embeddedV4 v6 = some v4) :
    isForbiddenV6 v6 = isForbiddenV4 v4 := by
  refine (if_neg (Bool.eq_false_iff.1 native)).trans ?_
  rw [embeddedV4] at inner
  cases plain : v6.toIpv4 with
  | some v4' =>
      rw [plain, Option.some_or, Option.some.injEq] at inner
      rw [inner]
  | none =>
      rw [plain, Option.none_or] at inner
      dsimp only
      rw [inner]

theorem isForbiddenV6_of_other (native : isNative v6 = false) (inner : embeddedV4 v6 = none) :
    isForbiddenV6 v6 = isIpv6Teredo v6 := by
  refine (if_neg (Bool.eq_false_iff.1 native)).trans ?_
  obtain ⟨plain, translated⟩ := Option.or_eq_none_iff.1 inner
  rw [plain]
  dsimp only
  rw [translated]

theorem embeddedV4_of_embeds (embeds : Embeds v6 v4) : embeddedV4 v6 = some v4 := by
  cases embeds with
  | mapped a b c d =>
      rw [embeddedV4, Ipv6Addr.toIpv4, if_pos ⟨rfl, rfl, rfl, rfl, rfl, .inr rfl⟩,
        ofSegments_fromBeBytes, Option.some_or]
  | compatible a b c d =>
      rw [embeddedV4, Ipv6Addr.toIpv4, if_pos ⟨rfl, rfl, rfl, rfl, rfl, .inl rfl⟩,
        ofSegments_fromBeBytes, Option.some_or]
  | nat64 a b c d =>
      have mapped : ¬ (0x64 : UInt16) = 0 := by decide
      rw [embeddedV4, Ipv6Addr.toIpv4, if_neg fun zeros => mapped zeros.1, Option.none_or,
        ipv6Nat64EmbeddedV4, if_neg, ofSegments_fromBeBytes, Option.some_or]
      rintro (first | second | zeros)
      · exact first rfl
      · exact second rfl
      · exact zeros ⟨rfl, rfl, rfl, rfl⟩
  | sixToFour a b c d s3 s4 s5 s6 s7 =>
      have mapped : ¬ (0x2002 : UInt16) = 0 := by decide
      have translated : (0x2002 : UInt16) ≠ 0x64 := by decide
      rw [embeddedV4, Ipv6Addr.toIpv4, if_neg fun zeros => mapped zeros.1, Option.none_or,
        ipv6Nat64EmbeddedV4, if_pos (.inl translated), Option.none_or,
        ipv6To4EmbeddedV4, if_neg fun other => other rfl, ofSegments_fromBeBytes]

/-- An embedded address is embedded in one of the four ways. -/
theorem embeds_of_embeddedV4 (inner : embeddedV4 v6 = some v4) : Embeds v6 v4 := by
  obtain ⟨s0, s1, s2, s3, s4, s5, s6, s7⟩ := v6
  rcases Option.or_eq_some_iff.1 inner with plain | ⟨-, translated⟩
  · rw [Ipv6Addr.toIpv4] at plain
    split at plain
    case isTrue zeros =>
      obtain ⟨rfl, rfl, rfl, rfl, rfl, rfl | rfl⟩ := zeros
      · cases plain
        have form := Embeds.compatible (highByte s6) (lowByte s6) (highByte s7) (lowByte s7)
        rwa [fromBeBytes_bytes, fromBeBytes_bytes] at form
      · cases plain
        have form := Embeds.mapped (highByte s6) (lowByte s6) (highByte s7) (lowByte s7)
        rwa [fromBeBytes_bytes, fromBeBytes_bytes] at form
    case isFalse => cases plain
  · rcases Option.or_eq_some_iff.1 translated with nat64 | ⟨-, sixToFour⟩
    · rw [ipv6Nat64EmbeddedV4] at nat64
      split at nat64
      case isTrue => cases nat64
      case isFalse prefixed =>
        rw [not_or, not_or, not_not, not_not, not_not] at prefixed
        obtain ⟨rfl, rfl, rfl, rfl, rfl, rfl⟩ := prefixed
        cases nat64
        have form := Embeds.nat64 (highByte s6) (lowByte s6) (highByte s7) (lowByte s7)
        rwa [fromBeBytes_bytes, fromBeBytes_bytes] at form
    · rw [ipv6To4EmbeddedV4] at sixToFour
      split at sixToFour
      case isTrue => cases sixToFour
      case isFalse prefixed =>
        obtain rfl := not_not.1 prefixed
        cases sixToFour
        have form := Embeds.sixToFour (highByte s1) (lowByte s1) (highByte s2) (lowByte s2)
          s3 s4 s5 s6 s7
        rwa [fromBeBytes_bytes, fromBeBytes_bytes] at form

/-- A forbidden address is forbidden in every IPv6 form that embeds it. -/
theorem isForbiddenV6_of_embeds (embeds : Embeds v6 v4) (forbidden : isForbiddenV4 v4 = true) :
    isForbiddenV6 v6 = true := by
  cases native : isNative v6 with
  | true => exact isForbiddenV6_of_native native
  | false => rwa [isForbiddenV6_of_embedded native (embeddedV4_of_embeds embeds)]

theorem special_of_native (native : isNative v6 = true) : Special v6 := by
  rw [isNative, Bool.or_eq_true, Bool.or_eq_true, Bool.or_eq_true, isIpv6UniqueLocal_iff,
    isIpv6LinkLocal_iff, Ipv6Addr.isLoopback, Ipv6Addr.isUnspecified, beq_iff_eq, beq_iff_eq]
    at native
  rcases native with ((loopback | unspecified) | unique) | linkLocal
  · exact loopback ▸ .loopback
  · exact unspecified ▸ .unspecified
  · exact .uniqueLocal unique.1 unique.2
  · exact .linkLocal linkLocal.1 linkLocal.2

/-- Outside the special ranges, a forbidden address embeds a forbidden one. -/
theorem embeds_of_isForbiddenV6 (ordinary : ¬ Special v6) (forbidden : isForbiddenV6 v6 = true) :
    ∃ v4, Embeds v6 v4 ∧ isForbiddenV4 v4 = true := by
  have native : isNative v6 = false :=
    Bool.eq_false_iff.2 fun native => ordinary (special_of_native native)
  cases inner : embeddedV4 v6 with
  | some v4 =>
      rw [isForbiddenV6_of_embedded native inner] at forbidden
      exact ⟨v4, embeds_of_embeddedV4 inner, forbidden⟩
  | none =>
      rw [isForbiddenV6_of_other native inner, isIpv6Teredo, Bool.and_eq_true, beq_iff_eq,
        beq_iff_eq] at forbidden
      exact absurd (.teredo forbidden.1 forbidden.2) ordinary

/-! ## The layers -/

theorem not_refuses_ok {ε : Type} : ¬ Refuses (.ok () : Except ε Unit) := by
  rintro ⟨e, error⟩
  cases error

/-- The scan refuses an answer that is empty or holds a forbidden address. -/
theorem failClosedScan_refuses (host : List Char) (addrs : List IpAddr) :
    Refuses (failClosedScan host addrs) ↔ addrs = [] ∨ ∃ ip ∈ addrs, isForbiddenIp ip = true := by
  rw [failClosedScan]
  cases found : addrs.find? isForbiddenIp with
  | some ip =>
      refine iff_of_true ⟨_, rfl⟩ (.inr ⟨ip, List.mem_of_find?_eq_some found, ?_⟩)
      exact List.find?_some found
  | none =>
      have none_forbidden := List.find?_eq_none.1 found
      dsimp only
      split
      case isTrue empty => exact iff_of_true ⟨_, rfl⟩ (.inl empty)
      case isFalse nonempty =>
        refine iff_of_false not_refuses_ok fun either => ?_
        obtain empty | ⟨ip, member, forbidden⟩ := either
        · exact nonempty empty
        · exact none_forbidden ip member forbidden

theorem failClosedScan_singleton (host : List Char) (ip : IpAddr) :
    Refuses (failClosedScan host [ip]) ↔ isForbiddenIp ip = true := by
  rw [failClosedScan_refuses]
  simp

/-- The layers agree where the entry guard is not disarmed. -/
theorem layersAgree_of_armed (checked : Bool) {disable : Option String}
    (armed : disable ≠ some "1") (host : List Char) : LayersAgree checked disable host := by
  obtain ⟨r, read⟩ := parseIpLiteral_total checked host
  unfold LayersAgree isForbiddenLiteralHost rejectForbiddenLiteralUrl
  rw [if_neg armed]
  dsimp only [Option.getD_some]
  rw [read, Option.map_some, Option.map_some]
  refine ⟨_, _, rfl, rfl, ?_, ?_⟩
  · cases r with
    | none => exact iff_of_false not_refuses_ok Bool.false_ne_true
    | some ip =>
        dsimp only
        rw [Option.any_some]
        split
        case isTrue forbidden => exact iff_of_true ⟨_, rfl⟩ forbidden
        case isFalse allowed => exact iff_of_false not_refuses_ok allowed
  · intro ip same
    rw [Option.some.inj same, Option.any_some]
    exact failClosedScan_singleton host ip

/-- No embedding of a forbidden address is allowed, no other ordinary address is forbidden, the
three layers agree on every host while the entry guard is armed, and the scan refuses just what is
empty or holds a forbidden address. -/
theorem no_embedding_allowed (checked : Bool) {disable : Option String}
    (armed : disable ≠ some "1") :
    (∀ v6 v4, Embeds v6 v4 → isForbiddenV4 v4 = true → isForbiddenV6 v6 = true) ∧
      (∀ v6, ¬ Special v6 → isForbiddenV6 v6 = true →
        ∃ v4, Embeds v6 v4 ∧ isForbiddenV4 v4 = true) ∧
      (∀ host, LayersAgree checked disable host) ∧
      ∀ host addrs, Refuses (failClosedScan host addrs) ↔
        addrs = [] ∨ ∃ ip ∈ addrs, isForbiddenIp ip = true :=
  ⟨fun _ _ => isForbiddenV6_of_embeds, fun _ => embeds_of_isForbiddenV6,
    layersAgree_of_armed checked armed, failClosedScan_refuses⟩

theorem no_embedding_allowed_unset : LayersAgree true none "127.0.0.1".toList :=
  (@no_embedding_allowed true none (Option.some_ne_none "1").symm).2.2.1 _

/-- The entry guard that a test disarms lets loopback through, which the redirect guard refuses. -/
theorem disarmed_disagrees : ¬ LayersAgree true (some "1") "127.0.0.1".toList := by
  rintro ⟨verdict, result, redirect, entry, same, -⟩
  have forbidden : isForbiddenLiteralHost true "127.0.0.1".toList = some true := by
    decide +kernel
  rw [forbidden] at redirect
  obtain rfl := Option.some.inj redirect
  rw [rejectForbiddenLiteralUrl, if_pos rfl] at entry
  obtain rfl := Option.some.inj entry
  exact not_refuses_ok (same.2 rfl)

end Webfang.Ssrf
