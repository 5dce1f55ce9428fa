import Mathlib.Data.List.Induction
import Mathlib.Data.Nat.Digits.Defs

/-!
# Identifiers and their text

A PostgreSQL `uuid` is 128 bits; its text form is thirty-two lower-case hex
digits in groups of 8, 4, 4, 4 and 12.  The worker receives a run id as text,
checks it with `isUUID`, hands it to the database as a `uuid` parameter and
splices the text itself into effect keys and hashes.
-/

namespace DurableRuntime

abbrev Uuid := BitVec 128

/-- The hex digits of a number below `16 ^ count`, most significant first. -/
def hexDigits : Nat → Nat → List Char
  | 0, _ => []
  | count + 1, n => hexDigits count (n / 16) ++ [Nat.digitChar (n % 16)]

/-- `uuid_out`: the text form in which the database prints a `uuid`. -/
def Uuid.text (id : Uuid) : String :=
  let digits := hexDigits 32 id.toNat
  String.ofList (digits.take 8 ++ '-' :: ((digits.drop 8).take 4 ++
    '-' :: ((digits.drop 12).take 4 ++ '-' :: ((digits.drop 16).take 4 ++
      '-' :: digits.drop 20))))

def hexValue (c : Char) : Option Nat :=
  if '0' ≤ c ∧ c ≤ '9' then some (c.toNat - '0'.toNat)
  else if 'a' ≤ c ∧ c ≤ 'f' then some (c.toNat - 'a'.toNat + 10)
  else if 'A' ≤ c ∧ c ≤ 'F' then some (c.toNat - 'A'.toNat + 10)
  else none

/-- The loop of `isUUID` over the runes of the value, each with its byte index. -/
def isUUIDFrom (index : Nat) : List Char → Bool
  | [] => true
  | char :: rest =>
      (if index = 8 ∨ index = 13 ∨ index = 18 ∨ index = 23 then char == '-'
        else (hexValue char).isSome) &&
      isUUIDFrom (index + char.utf8Size) rest

def isUUID (value : String) : Bool :=
  value.utf8ByteSize == 36 && isUUIDFrom 0 value.toList

/-- The number that hex digits spell, `none` when one of them is no hex digit. -/
def hexNumber (digits : List Char) : Option Nat :=
  digits.foldlM (fun n c => (hexValue c).map (16 * n + ·)) 0

/-- The digits left when the one hyphen allowed after a group of four is dropped. -/
def uuidDigits (index : Nat) : List Char → List Char
  | [] => []
  | c :: rest =>
      if c = '-' ∧ index % 4 = 0 ∧ 0 < index ∧ index < 32 then
        match rest with
        | [] => ['-']
        | d :: rest => d :: uuidDigits (index + 1) rest
      else c :: uuidDigits (index + 1) rest

/-- `uuid_in`: the text forms the database reads as a `uuid`; braces may surround one. -/
def Uuid.ofText? (text : String) : Option Uuid :=
  let chars := text.toList
  let inner :=
    if chars.head? = some '{' ∧ chars.getLast? = some '}' then
      (chars.drop 1).dropLast
    else chars
  let digits := uuidDigits 0 inner
  if digits.length = 32 then (hexNumber digits).map (BitVec.ofNat 128) else none

/-! ## Round trip of the text form -/

@[simp] theorem length_hexDigits (count n : Nat) : (hexDigits count n).length = count := by
  induction count generalizing n with
  | zero => rfl
  | succ count ih => simp [hexDigits, ih]

theorem digitChar_inj {a b : Nat} (ha : a < 16) (hb : b < 16)
    (h : Nat.digitChar a = Nat.digitChar b) : a = b := by
  revert ha hb h
  have all : ∀ a < 16, ∀ b < 16, Nat.digitChar a = Nat.digitChar b → a = b := by
    decide
  exact fun ha hb h => all a ha b hb h

theorem hexDigits_inj {count a b : Nat} (ha : a < 16 ^ count) (hb : b < 16 ^ count)
    (h : hexDigits count a = hexDigits count b) : a = b := by
  induction count generalizing a b with
  | zero => omega
  | succ count ih =>
      simp only [hexDigits] at h
      obtain ⟨hinit, hlast⟩ := List.append_inj' h rfl
      have hdigit : a % 16 = b % 16 := by
        simp only [List.cons.injEq, and_true] at hlast
        exact digitChar_inj (Nat.mod_lt _ (by decide)) (Nat.mod_lt _ (by decide)) hlast
      have hrest : a / 16 = b / 16 := by
        apply ih _ _ hinit
        · rw [pow_succ] at ha
          omega
        · rw [pow_succ] at hb
          omega
      omega

theorem length_text (id : Uuid) : id.text.toList.length = 36 := by
  simp [Uuid.text]

/-- Two ids with the same text are the same id. -/
theorem text_inj {a b : Uuid} (h : a.text = b.text) : a = b := by
  have hlist := congrArg String.toList h
  simp only [Uuid.text, String.toList_ofList] at hlist
  obtain ⟨h1, hlist⟩ := List.append_inj hlist (by simp)
  obtain ⟨h2, hlist⟩ := List.append_inj (List.cons.inj hlist).2 (by simp)
  obtain ⟨h3, hlist⟩ := List.append_inj (List.cons.inj hlist).2 (by simp)
  obtain ⟨h4, hlist⟩ := List.append_inj (List.cons.inj hlist).2 (by simp)
  have h5 := (List.cons.inj hlist).2
  have hdigits : hexDigits 32 a.toNat = hexDigits 32 b.toNat := by
    have split : ∀ digits : List Char, digits =
        digits.take 8 ++ ((digits.drop 8).take 4 ++ ((digits.drop 12).take 4 ++
          ((digits.drop 16).take 4 ++ digits.drop 20))) := by
      intro digits
      rw [← List.drop_drop (i := 4) (j := 16), List.take_append_drop,
        ← List.drop_drop (i := 4) (j := 12), List.take_append_drop,
        ← List.drop_drop (i := 4) (j := 8), List.take_append_drop, List.take_append_drop]
    rw [split (hexDigits 32 a.toNat), split (hexDigits 32 b.toNat), h1, h2, h3, h4, h5]
  apply BitVec.eq_of_toNat_eq
  exact hexDigits_inj a.isLt b.isLt hdigits

/-! ## The text form is a spelling that the worker and the database accept -/

/-- What `isUUID` and `uuid_in` ask of a hex digit. -/
structure IsHexDigit (c : Char) : Prop where
  value : (hexValue c).isSome
  notHyphen : c ≠ '-'
  oneByte : c.utf8Size = 1

theorem hexValue_digitChar {n : Nat} (h : n < 16) :
    hexValue (Nat.digitChar n) = some n := by
  revert h
  have all : ∀ n < 16, hexValue (Nat.digitChar n) = some n := by decide
  exact fun h => all n h

theorem isHexDigit_digitChar {n : Nat} (h : n < 16) : IsHexDigit (Nat.digitChar n) where
  value := by simp [hexValue_digitChar h]
  notHyphen := by
    intro heq
    have hvalue := hexValue_digitChar h
    rw [heq] at hvalue
    cases hvalue
  oneByte := by
    revert h
    have all : ∀ n < 16, (Nat.digitChar n).utf8Size = 1 := by decide
    exact fun h => all n h

theorem isHexDigit_hexDigits {count n : Nat} {c : Char} (h : c ∈ hexDigits count n) :
    IsHexDigit c := by
  induction count generalizing n with
  | zero => cases h
  | succ count ih =>
      simp only [hexDigits, List.mem_append, List.mem_singleton] at h
      rcases h with h | rfl
      · exact ih h
      · exact isHexDigit_digitChar (Nat.mod_lt _ (by decide))

theorem hexNumber_hexDigits {count n : Nat} (h : n < 16 ^ count) :
    hexNumber (hexDigits count n) = some n := by
  unfold hexNumber
  induction count generalizing n with
  | zero =>
      have hn : n = 0 := by omega
      subst hn
      rfl
  | succ count ih =>
      have hrest : n / 16 < 16 ^ count := by
        rw [pow_succ] at h
        omega
      rw [hexDigits, List.foldlM_append, ih hrest]
      simp only [List.foldlM_cons, List.foldlM_nil, Option.bind_eq_bind, Option.bind_some,
        hexValue_digitChar (Nat.mod_lt n (by decide : 0 < 16)), Option.map_some]
      simp only [Option.pure_def, Option.some.injEq]
      omega

theorem uuidDigits_digit {c : Char} (index : Nat) (rest : List Char) (hc : c ≠ '-') :
    uuidDigits index (c :: rest) = c :: uuidDigits (index + 1) rest := by
  rw [uuidDigits.eq_def]
  simp [hc]

/-- Groups of digits pass through both readers unchanged. -/
theorem uuidDigits_append {digits rest : List Char} (index : Nat)
    (h : ∀ c ∈ digits, IsHexDigit c) :
    uuidDigits index (digits ++ rest) = digits ++ uuidDigits (index + digits.length) rest := by
  induction digits generalizing index with
  | nil => simp
  | cons c digits ih =>
      have hc := (h c (by simp)).notHyphen
      rw [List.cons_append, uuidDigits_digit index _ hc,
        ih (index + 1) (fun d hd => h d (List.mem_cons_of_mem _ hd))]
      simp [Nat.add_assoc, Nat.add_comm 1]

theorem uuidDigits_hyphen {index : Nat} {digits rest : List Char}
    (h : ∀ c ∈ digits, IsHexDigit c) (hne : digits ≠ [])
    (hindex : index % 4 = 0 ∧ 0 < index ∧ index < 32) :
    uuidDigits index ('-' :: (digits ++ rest)) = uuidDigits index (digits ++ rest) := by
  cases digits with
  | nil => exact absurd rfl hne
  | cons c digits =>
      have hc := (h c (by simp)).notHyphen
      rw [List.cons_append, uuidDigits_digit index _ hc, uuidDigits.eq_def]
      simp [hindex]

theorem isUUIDFrom_append {digits rest : List Char} {index : Nat}
    (h : ∀ c ∈ digits, IsHexDigit c)
    (hindex : ∀ i < digits.length, ¬(index + i = 8 ∨ index + i = 13 ∨ index + i = 18 ∨
      index + i = 23)) :
    isUUIDFrom index (digits ++ rest) = isUUIDFrom (index + digits.length) rest := by
  induction digits generalizing index with
  | nil => simp
  | cons c digits ih =>
      have hc := h c (by simp)
      have hzero := hindex 0 (by simp)
      rw [Nat.add_zero] at hzero
      rw [List.cons_append, isUUIDFrom, if_neg hzero, hc.value, hc.oneByte, Bool.true_and,
        ih (fun d hd => h d (List.mem_cons_of_mem _ hd))]
      · simp [Nat.add_assoc, Nat.add_comm 1]
      · intro i hi
        have hsucc := hindex (i + 1) (by simpa using hi)
        rwa [← Nat.add_assoc, Nat.add_right_comm] at hsucc

theorem utf8ByteSize_of_ascii {chars : List Char} (h : ∀ c ∈ chars, c.utf8Size = 1) :
    (String.ofList chars).utf8ByteSize = chars.length := by
  induction chars with
  | nil => rfl
  | cons c chars ih =>
      have hsplit : String.ofList (c :: chars) = String.singleton c ++ String.ofList chars := by
        apply String.toList_injective
        simp
      rw [hsplit, String.utf8ByteSize_append, ih (fun d hd => h d (List.mem_cons_of_mem _ hd))]
      simp [h c (by simp), Nat.add_comm]

/-! ## Spellings in five groups -/

/-- A text in five groups of hex digits, with its digits. -/
inductive Grouped : String → List Char → Prop
  | mk {d1 d2 d3 d4 d5 : List Char} (h1 : d1.length = 8) (h2 : d2.length = 4)
      (h3 : d3.length = 4) (h4 : d4.length = 4) (h5 : d5.length = 12)
      (hex : ∀ c ∈ d1 ++ (d2 ++ (d3 ++ (d4 ++ d5))), IsHexDigit c) :
      Grouped (String.ofList (d1 ++ '-' :: (d2 ++ '-' :: (d3 ++ '-' :: (d4 ++ '-' :: d5)))))
        (d1 ++ (d2 ++ (d3 ++ (d4 ++ d5))))

theorem grouped_text (id : Uuid) : Grouped id.text (hexDigits 32 id.toNat) := by
  have hall : (hexDigits 32 id.toNat).take 8 ++ (((hexDigits 32 id.toNat).drop 8).take 4 ++
      (((hexDigits 32 id.toNat).drop 12).take 4 ++ (((hexDigits 32 id.toNat).drop 16).take 4 ++
        (hexDigits 32 id.toNat).drop 20))) = hexDigits 32 id.toNat := by
    rw [← List.drop_drop (i := 4) (j := 16), List.take_append_drop,
      ← List.drop_drop (i := 4) (j := 12), List.take_append_drop,
      ← List.drop_drop (i := 4) (j := 8), List.take_append_drop, List.take_append_drop]
  have hgrouped := @Grouped.mk ((hexDigits 32 id.toNat).take 8)
    (((hexDigits 32 id.toNat).drop 8).take 4) (((hexDigits 32 id.toNat).drop 12).take 4)
    (((hexDigits 32 id.toNat).drop 16).take 4) ((hexDigits 32 id.toNat).drop 20)
    (by simp) (by simp) (by simp) (by simp) (by simp)
  rw [hall] at hgrouped
  exact hgrouped fun c hc => isHexDigit_hexDigits hc

theorem Grouped.isUUID {text : String} {digits : List Char} (h : Grouped text digits) :
    isUUID text = true := by
  obtain ⟨h1, h2, h3, h4, h5, hex⟩ := h
  rename_i d1 d2 d3 d4 d5
  simp only [List.mem_append] at hex
  have hyphen : ∀ (index : Nat) (rest : List Char),
      (index = 8 ∨ index = 13 ∨ index = 18 ∨ index = 23) →
        isUUIDFrom index ('-' :: rest) = isUUIDFrom (index + 1) rest := by
    intro index rest hindex
    rw [isUUIDFrom, if_pos hindex]
    rfl
  have hfrom : isUUIDFrom 0
      (d1 ++ '-' :: (d2 ++ '-' :: (d3 ++ '-' :: (d4 ++ '-' :: d5)))) = true := by
    rw [isUUIDFrom_append (fun c hc => hex c (by simp [hc])) (by omega), h1, hyphen _ _ (by simp),
      isUUIDFrom_append (fun c hc => hex c (by simp [hc])) (by omega), h2, hyphen _ _ (by simp),
      isUUIDFrom_append (fun c hc => hex c (by simp [hc])) (by omega), h3, hyphen _ _ (by simp),
      isUUIDFrom_append (fun c hc => hex c (by simp [hc])) (by omega), h4, hyphen _ _ (by simp),
      ← List.append_nil d5,
      isUUIDFrom_append (fun c hc => hex c (by simp [hc])) (by omega)]
    rfl
  have hsize : ∀ c ∈ d1 ++ '-' :: (d2 ++ '-' :: (d3 ++ '-' :: (d4 ++ '-' :: d5))),
      c.utf8Size = 1 := by
    intro c hc
    simp only [List.mem_append, List.mem_cons] at hc
    rcases hc with h | rfl | h | rfl | h | rfl | h | rfl | h
    all_goals first | rfl | exact (hex c (by simp [h])).oneByte
  have hbytes := utf8ByteSize_of_ascii hsize
  simp only [List.length_append, List.length_cons, h1, h2, h3, h4, h5] at hbytes
  rw [DurableRuntime.isUUID, hbytes, String.toList_ofList, hfrom]
  rfl

theorem Grouped.ofText? {text : String} {digits : List Char} (h : Grouped text digits) :
    Uuid.ofText? text = (hexNumber digits).map (BitVec.ofNat 128) := by
  obtain ⟨h1, h2, h3, h4, h5, hex⟩ := h
  rename_i d1 d2 d3 d4 d5
  simp only [List.mem_append] at hex
  have nonempty : ∀ {d : List Char} {n : Nat}, d.length = n + 1 → d ≠ [] := by
    rintro d n hlen rfl
    cases hlen
  have hdigits : uuidDigits 0 (d1 ++ '-' :: (d2 ++ '-' :: (d3 ++ '-' :: (d4 ++ '-' :: d5)))) =
      d1 ++ (d2 ++ (d3 ++ (d4 ++ d5))) := by
    rw [uuidDigits_append 0 (fun c hc => hex c (by simp [hc])), h1,
      uuidDigits_hyphen (fun c hc => hex c (by simp [hc])) (nonempty h2) (by omega),
      uuidDigits_append _ (fun c hc => hex c (by simp [hc])), h2,
      uuidDigits_hyphen (fun c hc => hex c (by simp [hc])) (nonempty h3) (by omega),
      uuidDigits_append _ (fun c hc => hex c (by simp [hc])), h3,
      uuidDigits_hyphen (fun c hc => hex c (by simp [hc])) (nonempty h4) (by omega),
      uuidDigits_append _ (fun c hc => hex c (by simp [hc])), h4,
      ← List.append_nil d5,
      uuidDigits_hyphen (fun c hc => hex c (by simp [hc])) (nonempty h5) (by omega),
      uuidDigits_append _ (fun c hc => hex c (by simp [hc]))]
    rfl
  have hhead : (d1 ++ '-' :: (d2 ++ '-' :: (d3 ++ '-' :: (d4 ++ '-' :: d5)))).head? ≠
      some '{' := by
    cases d1 with
    | nil => simp at h1
    | cons c d1 =>
        intro heq
        have hc := (hex c (by simp)).value
        simp only [List.cons_append, List.head?_cons, Option.some.injEq] at heq
        rw [heq] at hc
        cases hc
  unfold Uuid.ofText?
  simp only [String.toList_ofList, hhead, false_and, if_false, hdigits]
  rw [if_pos (by simp [h1, h2, h3, h4, h5])]

theorem isUUID_text (id : Uuid) : isUUID id.text = true := (grouped_text id).isUUID

/-- The database reads back the id it printed. -/
theorem ofText?_text (id : Uuid) : Uuid.ofText? id.text = some id := by
  rw [(grouped_text id).ofText?, hexNumber_hexDigits (show id.toNat < 16 ^ 32 from id.isLt),
    Option.map_some, BitVec.ofNat_toNat, BitVec.setWidth_eq]

/-! ## Accepted spellings -/

/-- What a hex digit stands for, and how the database prints it. -/
theorem isHexDigit_of_value {c : Char} {value : Nat} (h : hexValue c = some value) :
    IsHexDigit c ∧ IsHexDigit c.toLower ∧ value < 16 ∧ Nat.digitChar value = c.toLower := by
  have hsmall : c.toNat < 128 := by
    unfold hexValue at h
    simp only [Char.le_def, UInt32.le_iff_toNat_le] at h
    have hnat : c.toNat = c.val.toNat := rfl
    rw [hnat]
    split at h
    · rename_i hle
      have hbound : c.val.toNat ≤ 57 := hle.2
      omega
    · split at h
      · rename_i hle
        have hbound : c.val.toNat ≤ 102 := hle.2
        omega
      · split at h
        · rename_i hle
          have hbound : c.val.toNat ≤ 70 := hle.2
          omega
        · cases h
  have all : ∀ n < 128, ∀ value ∈ hexValue (Char.ofNat n),
      value < 16 ∧ Nat.digitChar value = (Char.ofNat n).toLower ∧ Char.ofNat n ≠ '-' ∧
        (Char.ofNat n).utf8Size = 1 := by
    decide
  have hc := all c.toNat hsmall value (by rw [Char.ofNat_toNat]; exact h)
  rw [Char.ofNat_toNat] at hc
  obtain ⟨hvalue, hlower, hnot, hsize⟩ := hc
  refine ⟨⟨by rw [h]; rfl, hnot, hsize⟩, ?_, hvalue, hlower⟩
  rw [← hlower]
  exact isHexDigit_digitChar hvalue

/-- A number read from hex digits is printed with the same digits in lower case. -/
theorem hexNumber_digits {digits : List Char} (hex : ∀ c ∈ digits, IsHexDigit c) :
    ∃ n, hexNumber digits = some n ∧ n < 16 ^ digits.length ∧
      hexDigits digits.length n = digits.map Char.toLower := by
  induction digits using List.reverseRecOn with
  | nil => exact ⟨0, rfl, by simp, rfl⟩
  | append_singleton digits c ih =>
      obtain ⟨n, hn, hlt, hprint⟩ := ih fun d hd => hex d (by simp [hd])
      obtain ⟨value, hvalue⟩ := Option.isSome_iff_exists.mp (hex c (by simp)).value
      obtain ⟨-, -, hsmall, hlower⟩ := isHexDigit_of_value hvalue
      refine ⟨16 * n + value, ?_, ?_, ?_⟩
      · unfold hexNumber at hn ⊢
        rw [List.foldlM_append, hn]
        simp [hvalue]
      · rw [List.length_append, List.length_singleton, pow_succ]
        omega
      · rw [List.length_append, List.length_singleton, hexDigits]
        have hquotient : (16 * n + value) / 16 = n := by omega
        have hremainder : (16 * n + value) % 16 = value := by omega
        rw [hquotient, hremainder, hprint, hlower, List.map_append, List.map_singleton]

theorem utf8Size_of_isUUIDFrom {index : Nat} {chars : List Char}
    (h : isUUIDFrom index chars = true) : ∀ c ∈ chars, c.utf8Size = 1 := by
  induction chars generalizing index with
  | nil => simp
  | cons c chars ih =>
      simp only [isUUIDFrom, Bool.and_eq_true] at h
      intro d hd
      rcases List.mem_cons.mp hd with rfl | hd
      · split at h
        · rw [eq_of_beq h.1]
          rfl
        · obtain ⟨value, hvalue⟩ := Option.isSome_iff_exists.mp h.1
          exact (isHexDigit_of_value hvalue).1.oneByte
      · exact ih h.2 d hd

/-- The next group of digits of an accepted text. -/
theorem isUUIDFrom_group {index n : Nat} {chars : List Char} (h : isUUIDFrom index chars = true)
    (hn : n ≤ chars.length)
    (hindex : ∀ i < n, ¬(index + i = 8 ∨ index + i = 13 ∨ index + i = 18 ∨ index + i = 23)) :
    ∃ digits rest, chars = digits ++ rest ∧ digits.length = n ∧ (∀ c ∈ digits, IsHexDigit c) ∧
      isUUIDFrom (index + n) rest = true := by
  induction n generalizing index chars with
  | zero => exact ⟨[], chars, rfl, rfl, by simp, h⟩
  | succ n ih =>
      cases chars with
      | nil => simp at hn
      | cons c chars =>
          have hzero := hindex 0 (by omega)
          rw [Nat.add_zero] at hzero
          simp only [isUUIDFrom, if_neg hzero, Bool.and_eq_true] at h
          obtain ⟨value, hvalue⟩ := Option.isSome_iff_exists.mp h.1
          have hc := (isHexDigit_of_value hvalue).1
          rw [hc.oneByte] at h
          obtain ⟨digits, rest, rfl, hlen, hex, hrest⟩ :=
            ih h.2 (by simpa using hn) fun i hi => by
              have hsucc := hindex (i + 1) (by omega)
              rwa [← Nat.add_assoc, Nat.add_right_comm] at hsucc
          refine ⟨c :: digits, rest, rfl, by simp [hlen], ?_, ?_⟩
          · intro d hd
            rcases List.mem_cons.mp hd with rfl | hd
            · exact hc
            · exact hex d hd
          · rw [← hrest]
            congr 1
            omega

theorem isUUIDFrom_hyphen {index : Nat} {chars : List Char} (h : isUUIDFrom index chars = true)
    (hne : 0 < chars.length) (hindex : index = 8 ∨ index = 13 ∨ index = 18 ∨ index = 23) :
    ∃ rest, chars = '-' :: rest ∧ isUUIDFrom (index + 1) rest = true := by
  cases chars with
  | nil => simp at hne
  | cons c chars =>
      simp only [isUUIDFrom, if_pos hindex, Bool.and_eq_true] at h
      have hc := eq_of_beq h.1
      subst hc
      exact ⟨chars, rfl, h.2⟩

/-- `isUUID` accepts texts in five groups only. -/
theorem grouped_of_isUUID {text : String} (h : isUUID text = true) :
    ∃ digits, Grouped text digits := by
  simp only [isUUID, Bool.and_eq_true, beq_iff_eq] at h
  obtain ⟨hsize, hfrom⟩ := h
  have hlen : text.toList.length = 36 := by
    rw [← utf8ByteSize_of_ascii (utf8Size_of_isUUIDFrom hfrom), String.ofList_toList, hsize]
  obtain ⟨d1, r1, e1, h1, x1, f1⟩ := @isUUIDFrom_group 0 8 _ hfrom (by omega) (by omega)
  rw [e1, List.length_append] at hlen
  obtain ⟨t1, rfl, g1⟩ := isUUIDFrom_hyphen f1 (by omega) (by simp)
  rw [List.length_cons] at hlen
  obtain ⟨d2, r2, rfl, h2, x2, f2⟩ := @isUUIDFrom_group 9 4 _ g1 (by omega) (by omega)
  rw [List.length_append] at hlen
  obtain ⟨t2, rfl, g2⟩ := isUUIDFrom_hyphen f2 (by omega) (by simp)
  rw [List.length_cons] at hlen
  obtain ⟨d3, r3, rfl, h3, x3, f3⟩ := @isUUIDFrom_group 14 4 _ g2 (by omega) (by omega)
  rw [List.length_append] at hlen
  obtain ⟨t3, rfl, g3⟩ := isUUIDFrom_hyphen f3 (by omega) (by simp)
  rw [List.length_cons] at hlen
  obtain ⟨d4, r4, rfl, h4, x4, f4⟩ := @isUUIDFrom_group 19 4 _ g3 (by omega) (by omega)
  rw [List.length_append] at hlen
  obtain ⟨d5, rfl, g4⟩ := isUUIDFrom_hyphen f4 (by omega) (by simp)
  rw [List.length_cons] at hlen
  obtain ⟨d5, r5, rfl, h5, x5, -⟩ := @isUUIDFrom_group 24 12 _ g4 (by omega) (by omega)
  rw [List.length_append] at hlen
  have hnil : r5 = [] := List.eq_nil_of_length_eq_zero (by omega)
  subst hnil
  rw [List.append_nil] at e1
  refine ⟨d1 ++ (d2 ++ (d3 ++ (d4 ++ d5))), ?_⟩
  rw [← String.ofList_toList (s := text), e1]
  refine .mk h1 h2 h3 h4 h5 ?_
  intro c hc
  simp only [List.mem_append] at hc
  rcases hc with hc | hc | hc | hc | hc
  · exact x1 c hc
  · exact x2 c hc
  · exact x3 c hc
  · exact x4 c hc
  · exact x5 c hc

/-- A text in groups is spelled by its digits. -/
theorem Grouped.unique {a b : String} {digits : List Char} (ha : Grouped a digits)
    (hb : Grouped b digits) : a = b := by
  generalize hsame : digits = other at hb
  obtain ⟨h1, h2, h3, h4, -, -⟩ := ha
  obtain ⟨k1, k2, k3, k4, -, -⟩ := hb
  obtain ⟨e1, r1⟩ := List.append_inj hsame (h1.trans k1.symm)
  obtain ⟨e2, r2⟩ := List.append_inj r1 (h2.trans k2.symm)
  obtain ⟨e3, r3⟩ := List.append_inj r2 (h3.trans k3.symm)
  obtain ⟨e4, e5⟩ := List.append_inj r3 (h4.trans k4.symm)
  rw [e1, e2, e3, e4, e5]

theorem Grouped.hex {text : String} {digits : List Char} (h : Grouped text digits) :
    digits.length = 32 ∧ ∀ c ∈ digits, IsHexDigit c := by
  obtain ⟨h1, h2, h3, h4, h5, hex⟩ := h
  exact ⟨by simp [h1, h2, h3, h4, h5], hex⟩

theorem Grouped.toLower {text : String} {digits : List Char} (h : Grouped text digits) :
    Grouped text.toLower (digits.map Char.toLower) := by
  obtain ⟨h1, h2, h3, h4, h5, hex⟩ := h
  rename_i d1 d2 d3 d4 d5
  have htext : (String.ofList
      (d1 ++ '-' :: (d2 ++ '-' :: (d3 ++ '-' :: (d4 ++ '-' :: d5))))).toLower =
      String.ofList (d1.map Char.toLower ++ '-' :: (d2.map Char.toLower ++ '-' ::
        (d3.map Char.toLower ++ '-' :: (d4.map Char.toLower ++ '-' :: d5.map Char.toLower)))) := by
    apply String.toList_injective
    change (String.map Char.toLower _).toList = _
    rw [String.toList_map]
    simp only [String.toList_ofList, List.map_append, List.map_cons]
    rfl
  rw [htext]
  simp only [List.map_append]
  refine .mk (by simp [h1]) (by simp [h2]) (by simp [h3]) (by simp [h4]) (by simp [h5]) ?_
  simp only [← List.map_append, List.mem_map]
  rintro c ⟨d, hd, rfl⟩
  obtain ⟨value, hvalue⟩ := Option.isSome_iff_exists.mp (hex d hd).value
  exact (isHexDigit_of_value hvalue).2.1

/-- An accepted text names a run, and is that run's text up to the case of its letters. -/
theorem ofText?_of_isUUID {text : String} (h : isUUID text = true) :
    ∃ id : Uuid, Uuid.ofText? text = some id ∧ text.toLower = id.text := by
  obtain ⟨digits, hgrouped⟩ := grouped_of_isUUID h
  obtain ⟨hlen, hex⟩ := hgrouped.hex
  obtain ⟨n, hn, hlt, hprint⟩ := hexNumber_digits hex
  rw [hlen] at hlt hprint
  refine ⟨BitVec.ofNat 128 n, by rw [hgrouped.ofText?, hn]; rfl, ?_⟩
  have htext := grouped_text (BitVec.ofNat 128 n)
  rw [BitVec.toNat_ofNat, Nat.mod_eq_of_lt (show n < 2 ^ 128 from hlt), hprint] at htext
  exact hgrouped.toLower.unique htext

end DurableRuntime
