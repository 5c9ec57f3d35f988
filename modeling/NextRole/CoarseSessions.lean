import Mathlib.Data.Nat.Digits.Lemmas
import NextRole.Analytics.Identities
import NextRole.Lib.Dict
import NextRole.Lib.Segments

/-!
# Sessions are coarse

A prefix is kept of dotted quads only, and the last number is not part of it.  But the prefix
repeats the text of the other three: the same network may be spelled in many ways.  A digit that is
no decimal digit raises, and so does a number that is too long.

## Main definitions

* `DottedQuad`, `SameNetwork`, `SameMail` — what an address and a mail denote.
* `CoarselyShaped` — what is asked of the rows.
* `CoarseInput` — the rows of which it holds.

## Main results

* `isSome_allOctets` — when the parts of an address are judged without raising.
* `coarselyShaped_iff` — **the rows are coarsely shaped iff their addresses can be read, one network
  is spelled in one way, and no mail is empty in one row and blank in the other**.
* `coarselyShaped_of_plain` — plain addresses and mails are coarsely shaped.
* `not_coarselyShaped_superscript`.
-/

namespace NextRole

open List

/-! ### Numbers -/

section Numbers

variable {part : List Char} {n : ℕ}

theorem isDigit_of_decimalValue {c : Char} (h : (decimalValue c).isSome = true) :
    isDigit c = true := by
  rw [isDigit, h, Bool.true_or]

theorem isSome_decimalNumber : (decimalNumber part).isSome = true ↔
    part ≠ [] ∧ ∀ c ∈ part, (decimalValue c).isSome = true := by
  rw [decimalNumber]
  split
  · next hnil => simp [hnil]
  · next hne => rw [Option.isSome_map, Dict.isSome_mapM, and_iff_right hne]

theorem isDigits_of_decimalNumber (h : decimalNumber part = some n) : isDigits part = true := by
  obtain ⟨hne, hall⟩ := isSome_decimalNumber.mp (h ▸ rfl : (decimalNumber part).isSome = true)
  rw [isDigits, Bool.and_eq_true, all_eq_true]
  refine ⟨by simpa using hne, fun c hc => isDigit_of_decimalValue (hall c hc)⟩

theorem pyInt_eq_some : pyInt part = some n ↔
    part.length ≤ intMaxStrDigits ∧ decimalNumber part = some n := by
  rw [pyInt]
  split
  · next hlong =>
    constructor
    · intro h
      cases h
    · rintro ⟨hshort, -⟩
      omega
  · next hshort => exact ⟨fun h => ⟨by omega, h⟩, fun h => h.2⟩

/-- A part can be judged: its digits, if it consists of digits, can be read as a number. -/
def Readable (part : List Char) : Prop :=
  isDigits part = true →
    part.length ≤ intMaxStrDigits ∧ ∀ c ∈ part, (decimalValue c).isSome = true

theorem isSome_isOctet : (isOctet part).isSome = true ↔ Readable part := by
  rw [isOctet, Readable]
  cases hdigits : isDigits part with
  | false => simp
  | true =>
    have hne : part ≠ [] := by
      rintro rfl
      cases hdigits
    rw [if_pos rfl, Option.isSome_map, Option.isSome_iff_exists]
    simp only [pyInt_eq_some, exists_and_left, ← Option.isSome_iff_exists, isSome_decimalNumber,
      true_implies]
    rw [and_iff_right hne]

theorem isOctet_eq_true : isOctet part = some true ↔ ∃ n ≤ 255, pyInt part = some n := by
  rw [isOctet]
  cases hdigits : isDigits part with
  | false =>
    constructor
    · intro h
      cases h
    · rintro ⟨n, -, hn⟩
      rw [isDigits_of_decimalNumber (pyInt_eq_some.mp hn).2] at hdigits
      cases hdigits
  | true =>
    rw [if_pos rfl, Option.map_eq_some_iff]
    constructor
    · rintro ⟨n, hn, hle⟩
      exact ⟨n, of_decide_eq_true hle, hn⟩
    · rintro ⟨n, hle, hn⟩
      exact ⟨n, hn, decide_eq_true hle⟩

end Numbers

/-! ### Parts -/

section Parts

variable {parts : List (List Char)}

theorem allOctets_eq_true : allOctets parts = some true ↔
    ∀ part ∈ parts, ∃ n ≤ 255, pyInt part = some n := by
  induction parts with
  | nil => simp [allOctets]
  | cons part parts ih =>
    rw [allOctets, forall_mem_cons, ← isOctet_eq_true, ← ih]
    cases isOctet part with
    | none => simp
    | some octet => cases octet <;> simp

/-- The parts that are judged can be: those before which all are numbers up to 255. -/
def ReadableParts (parts : List (List Char)) : Prop :=
  ∀ before part after, parts = before ++ part :: after →
    (∀ p ∈ before, ∃ n ≤ 255, pyInt p = some n) → Readable part

theorem readableParts_cons {part : List Char} : ReadableParts (part :: parts) ↔
    Readable part ∧ ((∃ n ≤ 255, pyInt part = some n) → ReadableParts parts) := by
  constructor
  · intro h
    refine ⟨h [] part parts rfl fun _ hp => absurd hp not_mem_nil, ?_⟩
    intro hpart before p after heq hall
    apply h (part :: before) p after (by rw [heq, cons_append])
    rw [forall_mem_cons]
    exact ⟨hpart, hall⟩
  · rintro ⟨hpart, hparts⟩ before p after heq hall
    cases before with
    | nil =>
      cases heq
      exact hpart
    | cons q before =>
      cases heq
      rw [forall_mem_cons] at hall
      exact hparts hall.1 before p after rfl hall.2

/-- **The parts are judged without raising** iff each one that is reached can be. -/
theorem isSome_allOctets : (allOctets parts).isSome = true ↔ ReadableParts parts := by
  induction parts with
  | nil =>
    refine ⟨fun _ before part after heq => ?_, fun _ => rfl⟩
    cases before <;> cases heq
  | cons part parts ih =>
    rw [readableParts_cons, ← isSome_isOctet, ← isOctet_eq_true, ← ih, allOctets]
    cases isOctet part with
    | none => simp
    | some octet => cases octet <;> simp

/-- Numbers up to 255 are judged to be that, if they can be read. -/
theorem allOctets_of_decimalNumber (h : ∀ part ∈ parts, ∃ n ≤ 255, decimalNumber part = some n)
    (hsome : (allOctets parts).isSome = true) : allOctets parts = some true := by
  induction parts with
  | nil => rfl
  | cons part parts ih =>
    rw [forall_mem_cons] at h
    obtain ⟨⟨n, hle, hn⟩, hparts⟩ := h
    rw [isSome_allOctets, readableParts_cons] at hsome
    obtain ⟨hread, hrest⟩ := hsome
    have hoctet : ∃ n ≤ 255, pyInt part = some n :=
      ⟨n, hle, pyInt_eq_some.mpr ⟨(hread (isDigits_of_decimalNumber hn)).1, hn⟩⟩
    rw [allOctets, isOctet_eq_true.mpr hoctet]
    exact ih hparts (isSome_allOctets.mpr (hrest hoctet))

end Parts

/-! ### Addresses -/

/-- An address is four decimal numbers up to 255, in digits of any script. -/
def DottedQuad (ip : String) (octets : List ℕ) : Prop :=
  octets.length = 4 ∧ (∀ n ∈ octets, n ≤ 255) ∧ (ipParts ip).map decimalNumber = octets.map some

/-- Two addresses differ in their last number at most. -/
def SameNetwork (ip ip' : String) : Prop :=
  ∃ octets octets', DottedQuad ip octets ∧ DottedQuad ip' octets' ∧ octets.take 3 = octets'.take 3

theorem length_ipParts_empty : (ipParts "").length = 1 := by decide

theorem DottedQuad.length {ip : String} {octets : List ℕ} (h : DottedQuad ip octets) :
    (ipParts ip).length = 4 := by
  have hlength := congrArg List.length h.2.2
  rw [length_map, length_map, h.1] at hlength
  exact hlength

theorem DottedQuad.forall_mem {ip : String} {octets : List ℕ} (h : DottedQuad ip octets) :
    ∀ part ∈ ipParts ip, ∃ n ≤ 255, decimalNumber part = some n := by
  intro part hpart
  have hmem : decimalNumber part ∈ octets.map some := h.2.2 ▸ mem_map_of_mem hpart
  obtain ⟨n, hn, heq⟩ := mem_map.mp hmem
  exact ⟨n, h.2.1 n hn, heq.symm⟩

theorem dottedQuad_of_forall_mem {ip : String} (hlength : (ipParts ip).length = 4)
    (h : ∀ part ∈ ipParts ip, ∃ n ≤ 255, decimalNumber part = some n) :
    ∃ octets, DottedQuad ip octets := by
  refine ⟨(ipParts ip).map fun part => (decimalNumber part).getD 0, ?_, ?_, ?_⟩
  · rw [length_map, hlength]
  · intro n hn
    obtain ⟨part, hpart, rfl⟩ := mem_map.mp hn
    obtain ⟨n, hle, heq⟩ := h part hpart
    rw [heq]
    exact hle
  · rw [map_map]
    refine map_congr_left fun part hpart => ?_
    obtain ⟨n, -, heq⟩ := h part hpart
    rw [Function.comp_apply, heq, Option.getD_some]

/-- Whether the address of a row is judged without raising. -/
def ReadableAddress (ip : String) : Prop :=
  (ipParts ip).length = 4 → ReadableParts (ipParts ip)

theorem isSome_truncateIp {address : Option String} : (truncateIp address).isSome = true ↔
    ∀ ip, address = some ip → ReadableAddress ip := by
  cases address with
  | none => simp [truncateIp]
  | some ip =>
    have hone : (∀ ip', some ip = some ip' → ReadableAddress ip') ↔ ReadableAddress ip :=
      ⟨fun h => h ip rfl, fun h ip' heq => Option.some.inj heq ▸ h⟩
    rw [hone, truncateIp, ReadableAddress]
    split
    · next hempty => simp [hempty, length_ipParts_empty]
    · split
      · next hlength => rw [Option.isSome_map, isSome_allOctets, forall_prop_of_true hlength]
      · next hlength => simp [hlength]

theorem truncateIp_of_dottedQuad {ip : String} {octets : List ℕ} (h : DottedQuad ip octets)
    (hread : ReadableAddress ip) : truncateIp (some ip) = some (some (ipPrefix (ipParts ip))) := by
  have hne : ip ≠ "" := by
    rintro rfl
    have hlength := h.length
    rw [length_ipParts_empty] at hlength
    omega
  have hall := allOctets_of_decimalNumber h.forall_mem (isSome_allOctets.mpr (hread h.length))
  rw [truncateIp, if_neg hne, if_pos h.length, hall]
  rfl

/-- **Only quads are kept.** -/
theorem exists_dottedQuad_of_truncateIp {address : Option String} {text : String}
    (h : truncateIp address = some (some text)) :
    ∃ ip octets, address = some ip ∧ DottedQuad ip octets := by
  cases address with
  | none => cases h
  | some ip =>
    rw [truncateIp] at h
    split at h
    · cases h
    · split at h
      · next hlength =>
        obtain ⟨octets, hoctets, hkept⟩ := Option.map_eq_some_iff.mp h
        cases octets with
        | false => cases hkept
        | true =>
          have hall := allOctets_eq_true.mp hoctets
          obtain ⟨quad, hquad⟩ := dottedQuad_of_forall_mem hlength fun part hpart => by
            obtain ⟨n, hle, hn⟩ := hall part hpart
            exact ⟨n, hle, (pyInt_eq_some.mp hn).2⟩
          exact ⟨ip, quad, rfl, hquad⟩
      · cases h

/-- The prefix is made of the first three parts, and of nothing else. -/
theorem ipPrefix_inj {ip ip' : String} (h : (ipParts ip).length = 4)
    (h' : (ipParts ip').length = 4) : ipPrefix (ipParts ip) = ipPrefix (ipParts ip') ↔
      (ipParts ip).take 3 = (ipParts ip').take 3 := by
  have hsep : ∀ text : String, ∀ part ∈ (ipParts text).take 3, '.' ∉ part := fun text part hpart =>
    Path.notMem_of_mem_splitOn (mem_of_mem_take hpart)
  have hne : ∀ text : String, (ipParts text).length = 4 → (ipParts text).take 3 ≠ [] := by
    intro text hlength hnil
    have htake := congrArg List.length hnil
    rw [length_take, hlength] at htake
    cases htake
  rw [ipPrefix, ipPrefix, String.ofList_inj, append_left_inj]
  exact ⟨Path.join_inj (hsep ip) (hsep ip') (hne ip h) (hne ip' h'), fun heq => by rw [heq]⟩

/-! ### Rows -/

/-- Two mails that are equal up to case and surrounding blanks. -/
def SameMail (text : TextFunctions) (email email' : String) : Prop :=
  text.lower (strip email) = text.lower (strip email')

/-- Two rows of sessions are shaped without raising, of quads only and of one network alike, and two
rows of users with the same mail alike. -/
structure CoarselyShaped (text : TextFunctions) (row row' : AuthSession) (user user' : AuthUser) :
    Prop where
  total : (shapeSession row).isSome = true ∧ (shapeSession row').isSome = true
  quad : ∀ shaped, shapeSession row = some shaped → shaped.ipPrefix ≠ none →
    ∃ ip octets, row.ipAddress = some ip ∧ DottedQuad ip octets
  network : ∀ ip ip', row.ipAddress = some ip → row'.ipAddress = some ip' → SameNetwork ip ip' →
    (shapeSession row).map WarehouseSession.ipPrefix =
      (shapeSession row').map WarehouseSession.ipPrefix
  mail : ∀ email email', user.email = some email → user'.email = some email' →
    SameMail text email email' →
      (shapeUser text user).emailHash = (shapeUser text user').emailHash ∧
        (shapeUser text user).emailDomain = (shapeUser text user').emailDomain

/-- Both addresses can be read; of one network, they spell its numbers alike; and of two mails that
are equal, both are empty or none is. -/
structure CoarseInput (text : TextFunctions) (row row' : AuthSession) (user user' : AuthUser) :
    Prop where
  readable : ∀ ip, row.ipAddress = some ip → ReadableAddress ip
  readable' : ∀ ip, row'.ipAddress = some ip → ReadableAddress ip
  alike : ∀ ip ip', row.ipAddress = some ip → row'.ipAddress = some ip' → SameNetwork ip ip' →
    (ipParts ip).take 3 = (ipParts ip').take 3
  mails : ∀ email email', user.email = some email → user'.email = some email' →
    SameMail text email email' → (email = "" ↔ email' = "")

section Rows

variable {text : TextFunctions} {row row' : AuthSession} {user user' : AuthUser}

theorem isSome_shapeSession : (shapeSession row).isSome = true ↔
    ∀ ip, row.ipAddress = some ip → ReadableAddress ip := by
  rw [shapeSession, Option.isSome_map, isSome_truncateIp]

theorem map_ipPrefix_shapeSession {ip : String} {octets : List ℕ} (hip : row.ipAddress = some ip)
    (h : DottedQuad ip octets) (hread : ReadableAddress ip) :
    (shapeSession row).map WarehouseSession.ipPrefix = some (some (ipPrefix (ipParts ip))) := by
  rw [shapeSession, hip, truncateIp_of_dottedQuad h hread]
  rfl

theorem CoarseInput.coarselyShaped (h : CoarseInput text row row' user user') :
    CoarselyShaped text row row' user user' := by
  refine ⟨⟨isSome_shapeSession.mpr h.readable, isSome_shapeSession.mpr h.readable'⟩, ?_, ?_, ?_⟩
  · intro shaped hshaped hkept
    obtain ⟨kept, htruncate, rfl⟩ := Option.map_eq_some_iff.mp hshaped
    obtain ⟨prefixText, rfl⟩ := Option.ne_none_iff_exists'.mp hkept
    exact exists_dottedQuad_of_truncateIp htruncate
  · intro ip ip' hip hip' hsame
    have halike := h.alike ip ip' hip hip' hsame
    obtain ⟨octets, octets', hquad, hquad', -⟩ := hsame
    rw [map_ipPrefix_shapeSession hip hquad (h.readable ip hip),
      map_ipPrefix_shapeSession hip' hquad' (h.readable' ip' hip'),
      (ipPrefix_inj hquad.length hquad'.length).mpr halike]
  · intro email email' hemail hemail' hsame
    have hiff := h.mails email email' hemail hemail' hsame
    have hhash : hashEmail text (some email) = hashEmail text (some email') := by
      rw [hashEmail, hashEmail]
      by_cases hempty : email = ""
      · rw [if_pos hempty, if_pos (hiff.mp hempty)]
      · rw [if_neg hempty, if_neg (hempty ∘ hiff.mpr), hsame]
    rw [shapeUser, shapeUser, hemail, hemail', hhash]
    exact ⟨rfl, rfl⟩

theorem emailHash_eq_none {email : String} (hemail : user.email = some email) :
    (shapeUser text user).emailHash = none ↔ email = "" := by
  rw [shapeUser, hemail, hashEmail]
  split
  · next hempty => simp [hempty]
  · next hne => simp [hne]

theorem CoarselyShaped.coarseInput (h : CoarselyShaped text row row' user user') :
    CoarseInput text row row' user user' := by
  have hread := isSome_shapeSession.mp h.total.1
  have hread' := isSome_shapeSession.mp h.total.2
  refine ⟨hread, hread', ?_, ?_⟩
  · intro ip ip' hip hip' hsame
    have hkept := h.network ip ip' hip hip' hsame
    obtain ⟨octets, octets', hquad, hquad', -⟩ := hsame
    rw [map_ipPrefix_shapeSession hip hquad (hread ip hip),
      map_ipPrefix_shapeSession hip' hquad' (hread' ip' hip')] at hkept
    exact (ipPrefix_inj hquad.length hquad'.length).mp (Option.some.inj (Option.some.inj hkept))
  · intro email email' hemail hemail' hsame
    rw [← @emailHash_eq_none text user email hemail, ← @emailHash_eq_none text user' email' hemail',
      (h.mail email email' hemail hemail' hsame).1]

end Rows

/-- **The rows are coarsely shaped iff** their addresses can be read, one network is spelled in one
way, and no mail is empty in one row and blank in the other. -/
theorem coarselyShaped_iff (text : TextFunctions) (row row' : AuthSession) (user user' : AuthUser) :
    CoarselyShaped text row row' user user' ↔ CoarseInput text row row' user user' :=
  ⟨CoarselyShaped.coarseInput, CoarseInput.coarselyShaped⟩

/-- A digit that is no decimal digit: the address of the first row raises. -/
theorem not_coarselyShaped_superscript :
    ¬ CoarselyShaped { lower := fun s => s, sha256 := fun s => s }
      { ipAddress := some "10.0.0.\u00b2" } { ipAddress := none } { email := none }
      { email := none } := by
  intro h
  have hraise : shapeSession { ipAddress := some "10.0.0.\u00b2" } = none := by decide +kernel
  have htotal := h.total.1
  rw [hraise] at htotal
  cases htotal

/-! ### Plain addresses -/

/-- A number in ASCII digits without leading zeros. -/
structure PlainNumber (part : List Char) : Prop where
  ne_nil : part ≠ []
  isDigit : ∀ c ∈ part, c.isDigit = true
  head : part.head? = some '0' → part = ['0']

section Plain

variable {part part' : List Char} {n : ℕ}

theorem toNat_of_isDigit {c : Char} (h : c.isDigit = true) : 48 ≤ c.toNat ∧ c.toNat < 58 := by
  rw [Char.isDigit, Bool.and_eq_true, decide_eq_true_eq, decide_eq_true_eq] at h
  exact ⟨h.1, Nat.lt_succ_of_le h.2⟩

theorem decimalValue_of_isDigit {c : Char} (h : c.isDigit = true) :
    decimalValue c = some (c.toNat - 48) := by
  obtain ⟨hge, hlt⟩ := toNat_of_isDigit h
  have hstart : (decide (0x30 ≤ c.toNat) && decide (c.toNat < 0x30 + 10)) = true := by
    rw [Bool.and_eq_true, decide_eq_true_eq, decide_eq_true_eq]
    omega
  rw [decimalValue, decimalZeros, find?_cons_of_pos]
  · rfl
  · exact hstart

theorem mapM_decimalValue (h : ∀ c ∈ part, c.isDigit = true) :
    part.mapM decimalValue = some (part.map fun c => c.toNat - 48) := by
  induction part with
  | nil => rfl
  | cons c part ih =>
    rw [forall_mem_cons] at h
    rw [mapM_cons, decimalValue_of_isDigit h.1, ih h.2]
    rfl

namespace PlainNumber

theorem decimalNumber (h : PlainNumber part) : NextRole.decimalNumber part =
    some (Nat.ofDigits 10 (part.map fun c => c.toNat - 48).reverse) := by
  rw [NextRole.decimalNumber, if_neg h.ne_nil, mapM_decimalValue h.isDigit, Option.map_some]

theorem map_value (h : PlainNumber part) :
    (part.map fun c => c.toNat - 48).map (fun d => Char.ofNat (d + 48)) = part := by
  rw [map_map]
  conv_rhs => rw [← map_id part]
  refine map_congr_left fun c hc => ?_
  have hge := (toNat_of_isDigit (h.isDigit c hc)).1
  rw [Function.comp_apply, Nat.sub_add_cancel hge, Char.ofNat_toNat, id]

/-- A plain number other than zero is what its value is written as. -/
theorem digits_eq (h : PlainNumber part) (hzero : part ≠ ['0'])
    (hn : NextRole.decimalNumber part = some n) :
    Nat.digits 10 n = (part.map fun c => c.toNat - 48).reverse := by
  rw [h.decimalNumber] at hn
  rw [← Option.some.inj hn]
  apply Nat.digits_ofDigits 10 (by decide)
  · intro d hd
    obtain ⟨c, hc, rfl⟩ := mem_map.mp (mem_reverse.mp hd)
    have hlt := (toNat_of_isDigit (h.isDigit c hc)).2
    omega
  · intro hne hlast
    rw [getLast_reverse, head_map] at hlast
    -- the first digit would be a zero
    have hhead : part.head h.ne_nil = '0' := by
      apply Char.toNat_inj.mp
      have hge := (toNat_of_isDigit (h.isDigit _ (head_mem h.ne_nil))).1
      have hval : ('0' : Char).toNat = 48 := rfl
      omega
    exact hzero (h.head (by rw [head?_eq_some_head h.ne_nil, hhead]))

theorem eq_of_decimalNumber (h : PlainNumber part) (h' : PlainNumber part')
    (hn : NextRole.decimalNumber part = some n) (hn' : NextRole.decimalNumber part' = some n) :
    part = part' := by
  have hzero : NextRole.decimalNumber ['0'] = some 0 := by decide
  have hpos : ∀ p, PlainNumber p → p ≠ ['0'] → NextRole.decimalNumber p = some 0 → False := by
    intro p hp hne hnum
    have hdigits := hp.digits_eq hne hnum
    rw [Nat.digits_zero] at hdigits
    exact hp.ne_nil (map_eq_nil_iff.mp (reverse_eq_nil_iff.mp hdigits.symm))
  by_cases heq : part = ['0']
  · by_contra hne
    rw [heq, hzero] at hn
    cases hn
    exact hpos part' h' (fun heq' => hne (heq.trans heq'.symm)) hn'
  · by_cases heq' : part' = ['0']
    · rw [heq', hzero] at hn'
      cases hn'
      exact absurd hn (hpos part h heq)
    · have hdigits := reverse_injective ((h.digits_eq heq hn).symm.trans (h'.digits_eq heq' hn'))
      rw [← h.map_value, ← h'.map_value, hdigits]

theorem length_le (h : PlainNumber part) (hn : NextRole.decimalNumber part = some n)
    (hle : n ≤ 255) : part.length ≤ 3 := by
  by_cases heq : part = ['0']
  · rw [heq]
    decide
  · have hlength := congrArg List.length (h.digits_eq heq hn)
    rw [length_reverse, length_map] at hlength
    rw [← hlength, Nat.digits_length_le_iff (by decide)]
    omega

end PlainNumber

/-- An address as it is usually written. -/
def PlainAddress (ip : String) : Prop :=
  (∃ octets, DottedQuad ip octets) ∧ ∀ part ∈ ipParts ip, PlainNumber part

theorem PlainAddress.readable {ip : String} (h : PlainAddress ip) : ReadableAddress ip := by
  obtain ⟨⟨octets, hquad⟩, hplain⟩ := h
  intro _ before part after heq _ _
  have hpart : part ∈ ipParts ip := by
    rw [heq]
    exact mem_append_right before mem_cons_self
  obtain ⟨n, hle, hn⟩ := hquad.forall_mem part hpart
  refine ⟨?_, (isSome_decimalNumber.mp (hn ▸ rfl : (decimalNumber part).isSome = true)).2⟩
  have hlength := (hplain part hpart).length_le hn hle
  exact hlength.trans (by decide)

theorem eq_of_map_eq {α β : Type} {f : α → β} {l l' : List α} (h : l.map f = l'.map f)
    (hinj : ∀ a ∈ l, ∀ a' ∈ l', f a = f a' → a = a') : l = l' := by
  induction l generalizing l' with
  | nil => exact (map_eq_nil_iff.mp h.symm).symm
  | cons a l ih =>
    cases l' with
    | nil => cases h
    | cons a' l' =>
      obtain ⟨ha, hl⟩ := cons.inj h
      rw [hinj a mem_cons_self a' mem_cons_self ha, ih hl fun b hb b' hb' =>
        hinj b (mem_cons_of_mem a hb) b' (mem_cons_of_mem a' hb')]

theorem PlainAddress.take_eq {ip ip' : String} (h : PlainAddress ip) (h' : PlainAddress ip')
    (hsame : SameNetwork ip ip') : (ipParts ip).take 3 = (ipParts ip').take 3 := by
  obtain ⟨octets, octets', hquad, hquad', hnetwork⟩ := hsame
  have hnumbers : ((ipParts ip).take 3).map decimalNumber =
      ((ipParts ip').take 3).map decimalNumber := by
    rw [map_take, map_take, hquad.2.2, hquad'.2.2, ← map_take, ← map_take, hnetwork]
  apply eq_of_map_eq hnumbers
  intro part hpart part' hpart' heq
  obtain ⟨n, -, hn⟩ := hquad.forall_mem part (mem_of_mem_take hpart)
  exact (h.2 part (mem_of_mem_take hpart)).eq_of_decimalNumber
    (h'.2 part' (mem_of_mem_take hpart')) hn (heq ▸ hn)

end Plain

/-- **Plain addresses and mails are coarsely shaped.** -/
theorem coarselyShaped_of_plain {text : TextFunctions} {row row' : AuthSession}
    {user user' : AuthUser} (hrow : ∀ ip, row.ipAddress = some ip → PlainAddress ip)
    (hrow' : ∀ ip, row'.ipAddress = some ip → PlainAddress ip) (hmail : user.email ≠ some "")
    (hmail' : user'.email ≠ some "") : CoarselyShaped text row row' user user' := by
  apply CoarseInput.coarselyShaped
  refine ⟨fun ip hip => (hrow ip hip).readable, fun ip hip => (hrow' ip hip).readable, ?_, ?_⟩
  · intro ip ip' hip hip' hsame
    exact (hrow ip hip).take_eq (hrow' ip' hip') hsame
  · intro email email' hemail hemail' _
    constructor
    · rintro rfl
      exact absurd hemail hmail
    · rintro rfl
      exact absurd hemail' hmail'

end NextRole
