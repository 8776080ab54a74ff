import Webfang.Lib.Numerals

/-!
# The SSRF guard

`domain/ssrf_guard.rs` and `infrastructure/ssrf.rs`: which addresses are forbidden, and what hosts
denote an address.  An address is read as the standard library does it, or in the older ways of
writing an IPv4 address.  Where an operation panics in a build with overflow checks, the outer
`Option` is `none`.
-/

namespace Webfang.Ssrf

open Checked64 Numerals

/-! ## Addresses -/

structure Ipv4Addr where
  a : UInt8
  b : UInt8
  c : UInt8
  d : UInt8
  deriving DecidableEq, Repr

/-- The segments of an address. -/
structure Ipv6Addr where
  s0 : UInt16
  s1 : UInt16
  s2 : UInt16
  s3 : UInt16
  s4 : UInt16
  s5 : UInt16
  s6 : UInt16
  s7 : UInt16
  deriving DecidableEq, Repr

inductive IpAddr
  | v4 (ip : Ipv4Addr)
  | v6 (ip : Ipv6Addr)
  deriving DecidableEq, Repr

/-- `u16::from_be_bytes`. -/
def fromBeBytes (high low : UInt8) : UInt16 := UInt16.ofNat (high.toNat * 256 + low.toNat)

/-- `(segment >> 8) as u8`. -/
def highByte (segment : UInt16) : UInt8 := (segment >>> 8).toUInt8

/-- `segment as u8`. -/
def lowByte (segment : UInt16) : UInt8 := segment.toUInt8

namespace Ipv4Addr

/-- `Ipv4Addr::from`. -/
def ofU32 (v : UInt32) : Ipv4Addr :=
  ⟨(v >>> 24).toUInt8, (v >>> 16).toUInt8, (v >>> 8).toUInt8, v.toUInt8⟩

/-- The 32-bit number of an address. -/
def toNat (ip : Ipv4Addr) : Nat :=
  ((ip.a.toNat * 256 + ip.b.toNat) * 256 + ip.c.toNat) * 256 + ip.d.toNat

/-- The address in two segments. -/
def ofSegments (high low : UInt16) : Ipv4Addr :=
  ⟨highByte high, lowByte high, highByte low, lowByte low⟩

def isLoopback (ip : Ipv4Addr) : Bool := ip.a == 127

def isPrivate (ip : Ipv4Addr) : Bool :=
  ip.a == 10 || (ip.a == 172 && 16 ≤ ip.b && ip.b ≤ 31) || (ip.a == 192 && ip.b == 168)

def isLinkLocal (ip : Ipv4Addr) : Bool := ip.a == 169 && ip.b == 254

def isUnspecified (ip : Ipv4Addr) : Bool := ip == ⟨0, 0, 0, 0⟩

def isBroadcast (ip : Ipv4Addr) : Bool := ip == ⟨255, 255, 255, 255⟩

end Ipv4Addr

namespace Ipv6Addr

/-- The address with these segments, which are eight. -/
def ofSegments (segments : List UInt16) : Ipv6Addr :=
  ⟨segments.getD 0 0, segments.getD 1 0, segments.getD 2 0, segments.getD 3 0, segments.getD 4 0,
    segments.getD 5 0, segments.getD 6 0, segments.getD 7 0⟩

def isLoopback (ip : Ipv6Addr) : Bool := ip == ⟨0, 0, 0, 0, 0, 0, 0, 1⟩

def isUnspecified (ip : Ipv6Addr) : Bool := ip == ⟨0, 0, 0, 0, 0, 0, 0, 0⟩

/-- `Ipv6Addr::to_ipv4`: the address in an IPv4-mapped or IPv4-compatible one. -/
def toIpv4 (ip : Ipv6Addr) : Option Ipv4Addr :=
  if ip.s0 = 0 ∧ ip.s1 = 0 ∧ ip.s2 = 0 ∧ ip.s3 = 0 ∧ ip.s4 = 0 ∧ (ip.s5 = 0 ∨ ip.s5 = 0xffff) then
    some (Ipv4Addr.ofSegments ip.s6 ip.s7)
  else none

end Ipv6Addr

/-! ## Forbidden addresses -/

def isCgnat (v4 : Ipv4Addr) : Bool := v4.a == 100 && v4.b &&& 0b11000000 == 0b01000000

def isReservedV4 (v4 : Ipv4Addr) : Bool := v4.a &&& 0b11110000 == 0b11110000 && !v4.isBroadcast

def isIpv6UniqueLocal (v6 : Ipv6Addr) : Bool := v6.s0 &&& 0xfe00 == 0xfc00

def isIpv6LinkLocal (v6 : Ipv6Addr) : Bool := v6.s0 &&& 0xffc0 == 0xfe80

def ipv6Nat64EmbeddedV4 (v6 : Ipv6Addr) : Option Ipv4Addr :=
  if v6.s0 ≠ 0x0064 ∨ v6.s1 ≠ 0xff9b ∨ ¬ (v6.s2 = 0 ∧ v6.s3 = 0 ∧ v6.s4 = 0 ∧ v6.s5 = 0) then none
  else some (Ipv4Addr.ofSegments v6.s6 v6.s7)

def ipv6To4EmbeddedV4 (v6 : Ipv6Addr) : Option Ipv4Addr :=
  if v6.s0 ≠ 0x2002 then none else some (Ipv4Addr.ofSegments v6.s1 v6.s2)

def isIpv6Teredo (v6 : Ipv6Addr) : Bool := v6.s0 == 0x2001 && v6.s1 == 0x0000

/-- `is_forbidden_ip` of an IPv4 address. -/
def isForbiddenV4 (v4 : Ipv4Addr) : Bool :=
  v4.isLoopback || v4.isPrivate || v4.isLinkLocal || v4.isUnspecified || v4.isBroadcast ||
    isReservedV4 v4 || isCgnat v4

/-- `is_forbidden_ip` of an IPv6 address. -/
def isForbiddenV6 (v6 : Ipv6Addr) : Bool :=
  if v6.isLoopback || v6.isUnspecified || isIpv6UniqueLocal v6 || isIpv6LinkLocal v6 then true
  else
    match v6.toIpv4 with
    | some v4 => isForbiddenV4 v4
    | none =>
        match (ipv6Nat64EmbeddedV4 v6).or (ipv6To4EmbeddedV4 v6) with
        | some v4 => isForbiddenV4 v4
        | none => isIpv6Teredo v6

def isForbiddenIp : IpAddr → Bool
  | .v4 v4 => isForbiddenV4 v4
  | .v6 v6 => isForbiddenV6 v6

/-! ## The parser of the standard library -/

def readGivenChar (target : Char) : List Char → Option (List Char)
  | [] => none
  | c :: rest => if c = target then some rest else none

def readSeparator {α : Type} (sep : Char) (index : Nat)
    (inner : List Char → Option (α × List Char)) (s : List Char) : Option (α × List Char) :=
  if 0 < index then (readGivenChar sep s).bind inner else inner s

/-- `read_number`: at most so many digits, and no zero in front of others where that is not
allowed. -/
def readNumber (radix maxDigits : Nat) (allowZeroPrefix : Bool) (s : List Char) :
    Option (Nat × List Char) :=
  let digits := s.takeWhile (isDigit radix)
  if digits = [] ∨ maxDigits < digits.length ∨
      (allowZeroPrefix = false ∧ digits.head? = some '0' ∧ 1 < digits.length) then none
  else some (numeral radix 0 digits, s.dropWhile (isDigit radix))

/-- A number that fits in a byte. -/
def readOctet (s : List Char) : Option (UInt8 × List Char) :=
  (readNumber 10 3 false s).bind fun (n, rest) =>
    if n < 256 then some (UInt8.ofNat n, rest) else none

def readIpv4Addr (s : List Char) : Option (Ipv4Addr × List Char) := do
  let (a, s) ← readSeparator '.' 0 readOctet s
  let (b, s) ← readSeparator '.' 1 readOctet s
  let (c, s) ← readSeparator '.' 2 readOctet s
  let (d, s) ← readSeparator '.' 3 readOctet s
  return (⟨a, b, c, d⟩, s)

def readGroup (s : List Char) : Option (UInt16 × List Char) :=
  (readNumber 16 4 true s).map fun (n, rest) => (UInt16.ofNat n, rest)

/-- `read_groups`, with this many groups left to read: the groups, whether they end in an embedded
IPv4 address, and what is left. -/
def readGroups : Nat → Nat → List Char → List UInt16 × Bool × List Char
  | 0, _, s => ([], false, s)
  | left + 1, index, s =>
      match if 0 < left then readSeparator ':' index readIpv4Addr s else none with
      | some (v4, rest) => ([fromBeBytes v4.a v4.b, fromBeBytes v4.c v4.d], true, rest)
      | none =>
          match readSeparator ':' index readGroup s with
          | some (group, rest) =>
              let (groups, embedded, rest) := readGroups left (index + 1) rest
              (group :: groups, embedded, rest)
          | none => ([], false, s)

def readIpv6Addr (s : List Char) : Option (Ipv6Addr × List Char) :=
  let (head, headIpv4, s) := readGroups 8 0 s
  if head.length = 8 then some (Ipv6Addr.ofSegments head, s)
  else if headIpv4 then none
  else
    ((readGivenChar ':' s).bind (readGivenChar ':')).map fun s =>
      let (tail, _, s) := readGroups (8 - (head.length + 1)) 0 s
      let zeros := List.replicate (8 - head.length - tail.length) 0
      (Ipv6Addr.ofSegments (head ++ zeros ++ tail), s)

def readIpAddr (s : List Char) : Option (IpAddr × List Char) :=
  ((readIpv4Addr s).map fun (ip, rest) => (.v4 ip, rest)).or
    ((readIpv6Addr s).map fun (ip, rest) => (.v6 ip, rest))

/-- `parse_with`: the whole text is read. -/
def parseWith {α : Type} (inner : List Char → Option (α × List Char)) (s : List Char) : Option α :=
  match inner s with
  | some (ip, []) => some ip
  | _ => none

/-! ## Literals -/

/-- The radix of a part and its digits: hexadecimal behind `0x`, octal behind a zero. -/
def radixOf (part : List Char) : Nat × List Char :=
  match part with
  | '0' :: x :: rest => if x = 'x' ∨ x = 'X' then (16, rest) else (8, part)
  | _ => (10, part)

def parseIpv4Number (part : List Char) : Option UInt64 :=
  let (radix, digits) := radixOf part
  if digits = [] then none
  else if digits.all (isDigit radix) then fromStrRadix radix 0 digits
  else none

/-- The loop over the ceilings of the parts, so many in all. -/
def belowCeilings (checked : Bool) (len : Nat) : Nat → List UInt64 → Option Bool
  | _, [] => some true
  | index, number :: numbers => do
      let ceiling ← if index = len - 1 then pow checked 256 (5 - len) else some 256
      if ceiling ≤ number then some false else belowCeilings checked len (index + 1) numbers

/-- The loop that puts the leading parts in their places. -/
def placed (checked : Bool) : Nat → List UInt64 → UInt64 → Option UInt64
  | _, [], value => some value
  | index, number :: numbers, value => do
      let shifted ← shiftLeft checked number (8 * (3 - index))
      let value ← add checked value shifted
      placed checked (index + 1) numbers value

/-- A text without one dot at its end. -/
def withoutDot (text : List Char) : List Char :=
  if text.getLast? = some '.' then text.dropLast else text

def parseIpv4AllForms (checked : Bool) (text : List Char) : Option (Option Ipv4Addr) :=
  let text := withoutDot text
  let parts := text.splitOn '.'
  if text = [] ∨ 4 < parts.length ∨ parts.any (· = []) then some none
  else
    match parts.mapM parseIpv4Number with
    | none => some none
    | some numbers => do
        if ← belowCeilings checked numbers.length 0 numbers then
          let value ← placed checked 0 numbers.dropLast (numbers.getLastD 0)
          return some (Ipv4Addr.ofU32 value.toUInt32)
        else return none

/-- A host without one pair of brackets. -/
def unbracketed : List Char → List Char
  | '[' :: rest => if rest.getLast? = some ']' then rest.dropLast else '[' :: rest
  | host => host

def parseIpLiteral (checked : Bool) (host : List Char) : Option (Option IpAddr) :=
  let literal := unbracketed host
  match parseWith readIpAddr literal with
  | some ip => some (some ip)
  | none =>
      if ':' ∈ literal then some none
      else (parseIpv4AllForms checked literal).map (·.map .v4)

/-! ## The three layers -/

/-- `is_forbidden_literal_host`. -/
def isForbiddenLiteralHost (checked : Bool) (host : List Char) : Option Bool :=
  (parseIpLiteral checked host).map (·.any isForbiddenIp)

structure ForbiddenLiteral where
  host : List Char
  ip : IpAddr
  deriving DecidableEq, Repr

/-- `reject_forbidden_literal_url` of a URL with this host, under a value of
`WEBFANG_DISABLE_SSRF_ENTRY_GUARD`. -/
def rejectForbiddenLiteralUrl (checked : Bool) (disable : Option String)
    (hostStr : Option (List Char)) : Option (Except ForbiddenLiteral Unit) :=
  if disable = some "1" then some (.ok ())
  else
    let host := hostStr.getD []
    (parseIpLiteral checked host).map fun
      | some ip => if isForbiddenIp ip then .error ⟨host, ip⟩ else .ok ()
      | none => .ok ()

/-- The errors of `fail_closed_scan`. -/
inductive ScanError
  | emptyAnswer (host : List Char)
  | forbiddenResolution (host : List Char) (ip : IpAddr)
  deriving DecidableEq, Repr

def failClosedScan (host : List Char) (addrs : List IpAddr) : Except ScanError Unit :=
  match addrs.find? isForbiddenIp with
  | some ip => .error (.forbiddenResolution host ip)
  | none => if addrs = [] then .error (.emptyAnswer host) else .ok ()

end Webfang.Ssrf
