import Mathlib.Data.List.DropRight
import Mathlib.Data.Nat.Digits.Defs
import NextRole.Lib.Path
import NextRole.Python

/-!
# Users and sessions for the warehouse

`hash_email`, `truncate_ip`, `shape_user` and `shape_session` of `dlt_sources/transforms.py`.  The
address and the user agent of a session come from the client.  `str.isdigit` holds of more than the
decimal digits, and `int` raises for the others and for more than 4300 digits: here `none`.  What a
character is in lower case and what SHA-256 makes of a text is not decided here; a text has no
surrogates, as it comes from the database.

## Main definitions

* `decimalValue`, `isDigit`, `pyInt` — digits and numbers.
* `hashEmail`, `truncateIp`.
* `shapeUser`, `shapeSession`.
-/

namespace NextRole

open List

/-! ### Digits -/

/-- The zeros of the scripts that have decimal digits. -/
def decimalZeros : List ℕ :=
  [0x30, 0x660, 0x6F0, 0x7C0, 0x966, 0x9E6, 0xA66, 0xAE6, 0xB66, 0xBE6, 0xC66, 0xCE6, 0xD66, 0xDE6,
    0xE50, 0xED0, 0xF20, 0x1040, 0x1090, 0x17E0, 0x1810, 0x1946, 0x19D0, 0x1A80, 0x1A90, 0x1B50,
    0x1BB0, 0x1C40, 0x1C50, 0xA620, 0xA8D0, 0xA900, 0xA9D0, 0xA9F0, 0xAA50, 0xABF0, 0xFF10, 0x104A0,
    0x10D30, 0x11066, 0x110F0, 0x11136, 0x111D0, 0x112F0, 0x11450, 0x114D0, 0x11650, 0x116C0,
    0x11730, 0x118E0, 0x11950, 0x11C50, 0x11D50, 0x11DA0, 0x11F50, 0x16A60, 0x16AC0, 0x16B50,
    0x1D7CE, 0x1D7D8, 0x1D7E2, 0x1D7EC, 0x1D7F6, 0x1E140, 0x1E2F0, 0x1E4F0, 0x1E950, 0x1FBF0]

/-- The digits that are no decimal digits: superscripts, circled digits and the like. -/
def otherDigits : List (ℕ × ℕ) :=
  [(0xB2, 0xB3), (0xB9, 0xB9), (0x1369, 0x1371), (0x19DA, 0x19DA), (0x2070, 0x2070),
    (0x2074, 0x2079), (0x2080, 0x2089), (0x2460, 0x2468), (0x2474, 0x247C), (0x2488, 0x2490),
    (0x24EA, 0x24EA), (0x24F5, 0x24FD), (0x24FF, 0x24FF), (0x2776, 0x277E), (0x2780, 0x2788),
    (0x278A, 0x2792), (0x10A40, 0x10A43), (0x10E60, 0x10E68), (0x11052, 0x1105A),
    (0x1F100, 0x1F10A)]

/-- The value of a decimal digit. -/
def decimalValue (c : Char) : Option ℕ :=
  (decimalZeros.find? fun start => start ≤ c.toNat && c.toNat < start + 10).map (c.toNat - ·)

/-- `str.isdigit` of one character. -/
def isDigit (c : Char) : Bool :=
  (decimalValue c).isSome || otherDigits.any fun r => r.1 ≤ c.toNat && c.toNat ≤ r.2

/-- `str.isdigit`. -/
def isDigits (text : List Char) : Bool := !text.isEmpty && text.all isDigit

/-- The number that decimal digits of any script spell. -/
def decimalNumber (text : List Char) : Option ℕ :=
  if text = [] then none
  else (text.mapM decimalValue).map fun values => Nat.ofDigits 10 values.reverse

/-- `sys.get_int_max_str_digits()`. -/
def intMaxStrDigits : ℕ := 4300

/-- `int` of a text of digits. -/
def pyInt (text : List Char) : Option ℕ :=
  if intMaxStrDigits < text.length then none else decimalNumber text

/-! ### Addresses -/

/-- `p.isdigit() and int(p) <= 255`. -/
def isOctet (part : List Char) : Option Bool :=
  if isDigits part then (pyInt part).map fun n => n ≤ 255 else some false

/-- `all`, which stops at the first part that is no octet. -/
def allOctets : List (List Char) → Option Bool
  | [] => some true
  | part :: parts =>
    match isOctet part with
    | none => none
    | some false => some false
    | some true => allOctets parts

/-- The parts of an address. -/
def ipParts (ip : String) : List (List Char) := (strip ip).toList.splitOn '.'

/-- `f"{parts[0]}.{parts[1]}.{parts[2]}.0/24"`. -/
def ipPrefix (parts : List (List Char)) : String :=
  String.ofList (Path.join '.' (parts.take 3) ++ ".0/24".toList)

/-- `truncate_ip`. -/
def truncateIp : Option String → Option (Option String)
  | none => some none
  | some ip =>
    if ip = "" then some none
    else if (ipParts ip).length = 4 then
      (allOctets (ipParts ip)).map fun octets =>
        if octets then some (ipPrefix (ipParts ip)) else none
    else some none

/-! ### Mails -/

/-- What is not decided here: `str.lower`, and the hexadecimal SHA-256 of a text. -/
structure TextFunctions where
  lower : String → String
  sha256 : String → String

/-- `hash_email`. -/
def hashEmail (text : TextFunctions) : Option String → Option String × Option String
  | none => (none, none)
  | some email =>
    if email = "" then (none, none)
    else
      let normalized := text.lower (strip email)
      let domain := if '@' ∈ normalized.toList then
        some (String.ofList (normalized.toList.rtakeWhile (· ≠ '@'))) else none
      (some (text.sha256 normalized), domain)

/-! ### Rows -/

/-- A row of `public.user`. -/
structure AuthUser where
  email : Option String
  others : List (String × Json) := []

/-- A row of `raw_auth.user`. -/
structure WarehouseUser where
  emailHash : Option String
  emailDomain : Option String
  others : List (String × Json)

/-- A row of `public.session`. -/
structure AuthSession where
  ipAddress : Option String
  userAgent : Option String := none
  others : List (String × Json) := []

/-- A row of `raw_auth.session`. -/
structure WarehouseSession where
  ipPrefix : Option String
  userAgent : Option String
  others : List (String × Json)

/-- `_USER_AGENT_MAX_LEN`. -/
def userAgentMaxLen : ℕ := 256

/-- `shape_user`. -/
def shapeUser (text : TextFunctions) (row : AuthUser) : WarehouseUser where
  emailHash := (hashEmail text row.email).1
  emailDomain := (hashEmail text row.email).2
  others := row.others

/-- `shape_session`. -/
def shapeSession (row : AuthSession) : Option WarehouseSession :=
  (truncateIp row.ipAddress).map fun ipPrefix => {
    ipPrefix := ipPrefix
    userAgent := row.userAgent.map fun agent => String.ofList (agent.toList.take userAgentMaxLen)
    others := row.others }

end NextRole
