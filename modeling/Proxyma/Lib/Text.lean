import Mathlib

/-!
# Text operations

The string operations of the source language's standard library that the model
uses, computed on the characters of a `String`.  The order on `String` is the
lexicographic order of code points, which is the byte order of UTF-8 text, so
`<` below is the comparison a byte-ordered store makes.

`le_of_hasPrefix` and `hasPrefix_of_between` say that the texts with a given
prefix form an interval of that order starting at the prefix itself.
-/

namespace Text

variable {s start : String} {n : ℕ}

/-- `strings.HasPrefix`. -/
def hasPrefix (s start : String) : Bool := start.toList.isPrefixOf s.toList

/-- `strings.TrimPrefix`. -/
def trimPrefix (s start : String) : String :=
  if hasPrefix s start then String.ofList (s.toList.drop start.toList.length) else s

/-- `unicode.IsSpace`. -/
def isSpace (c : Char) : Bool :=
  c.val ∈ [0x20, 0x85, 0xA0, 0x1680, 0x2028, 0x2029, 0x202F, 0x205F, 0x3000] ∨
    (0x09 ≤ c.val ∧ c.val ≤ 0x0D) ∨ (0x2000 ≤ c.val ∧ c.val ≤ 0x200A)

/-- `strings.TrimSpace`. -/
def trimSpace (s : String) : String :=
  String.ofList ((s.toList.dropWhile isSpace).reverse.dropWhile isSpace).reverse

/-- `strings.ToLower` on ASCII letters; no other letter has a hexadecimal digit as its lower case. -/
def toLower (s : String) : String := String.ofList (s.toList.map Char.toLower)

/-- The decimal digits of a number, padded with zeros to twenty places (`%020d`). -/
def decimal20 (n : ℕ) : String :=
  let digits := Nat.toDigits 10 n
  String.ofList (List.replicate (20 - digits.length) '0' ++ digits)

/-- `strconv.ParseUint(s, 10, 64)`, with `none` for both of its errors. -/
def parseUint (s : String) : Option ℕ :=
  if s.toList ≠ [] ∧ s.toList.all Char.isDigit then
    let value := s.toList.foldl (fun n c => 10 * n + (c.toNat - '0'.toNat)) 0
    if value < 2 ^ 64 then some value else none
  else none

/-! ## Prefixes -/

theorem hasPrefix_iff : hasPrefix s start = true ↔ start.toList <+: s.toList := by
  simp [hasPrefix]

theorem hasPrefix_append (start rest : String) : hasPrefix (start ++ rest) start = true := by
  rw [hasPrefix_iff, String.toList_append]
  exact List.prefix_append _ _

theorem trimPrefix_append (start rest : String) : trimPrefix (start ++ rest) start = rest := by
  rw [trimPrefix, if_pos (hasPrefix_append start rest)]
  simp

theorem le_of_hasPrefix (h : hasPrefix s start = true) : start ≤ s := by
  have hle : ¬ s.toList < start.toList := List.not_lt.2 (hasPrefix_iff.1 h).le
  exact not_lt.1 fun hlt => hle (String.lt_iff_toList_lt.1 hlt)

private theorem isPrefix_of_between : ∀ {p k k' : List Char},
    ¬ k < p → ¬ k' < k → p <+: k' → p <+: k
  | [], _, _, _, _, _ => List.nil_prefix
  | a :: p, k, [], _, _, h => by simp at h
  | a :: p, [], c :: k', hpk, _, _ => absurd (List.nil_lt_cons a p) hpk
  | a :: p, b :: k, c :: k', hpk, hkk, h => by
      obtain ⟨rfl, htail⟩ := List.cons_prefix_cons.1 h
      simp only [List.cons_lt_cons_iff, not_or, not_and] at hpk hkk
      obtain rfl : a = b := le_antisymm (not_lt.1 hpk.1) (not_lt.1 hkk.1)
      exact List.cons_prefix_cons.2 ⟨rfl, isPrefix_of_between (hpk.2 rfl) (hkk.2 rfl) htail⟩

/-- A text between a prefix and a text with that prefix has the prefix too. -/
theorem hasPrefix_of_between {k k' : String} (hk : start ≤ k) (hk' : k ≤ k')
    (h : hasPrefix k' start = true) : hasPrefix k start = true := by
  have toList_le : ∀ {a b : String}, a ≤ b → ¬ b.toList < a.toList := fun {a b} hab hlt =>
    absurd hab (not_le.2 (String.lt_iff_toList_lt.2 hlt))
  exact hasPrefix_iff.2 (isPrefix_of_between (toList_le hk) (toList_le hk') (hasPrefix_iff.1 h))

/-- A list is cut at the first occurrence of an element in one way only. -/
theorem append_cons_inj {α : Type} {a : α} {x y u v : List α} (hx : a ∉ x) (hy : a ∉ y)
    (h : x ++ a :: u = y ++ a :: v) : x = y ∧ u = v := by
  induction x generalizing y with
  | nil =>
    cases y with
    | nil => exact ⟨rfl, (List.cons.inj h).2⟩
    | cons b y => exact absurd (by simp [(List.cons.inj h).1]) hy
  | cons b x ih =>
    rcases y with _ | ⟨c, y⟩
    · exact absurd (by simp [(List.cons.inj h).1]) hx
    rw [List.mem_cons, not_or] at hx hy
    obtain ⟨rfl, hrest⟩ := List.cons.inj h
    obtain ⟨rfl, huv⟩ := ih hx.2 hy.2 hrest
    exact ⟨rfl, huv⟩

/-- A text is cut at its last slash in one way only. -/
theorem append_slash_inj {a b d d' : String} (hd : '/' ∉ d.toList) (hd' : '/' ∉ d'.toList)
    (h : a ++ "/" ++ d = b ++ "/" ++ d') : a = b := by
  have hlist : a.toList ++ '/' :: d.toList = b.toList ++ '/' :: d'.toList := by
    simpa using congrArg String.toList h
  have hreverse := congrArg List.reverse hlist
  simp only [List.reverse_append, List.reverse_cons, List.append_assoc,
    List.singleton_append] at hreverse
  have hab := (append_cons_inj (by simpa using hd) (by simpa using hd') hreverse).2
  exact String.toList_inj.1 (List.reverse_inj.1 hab)

/-- Appending a slash and a text without one adds no prefix that ends in a
slash, other than the whole text with its slash. -/
theorem hasPrefix_append_slash {a b d : String} (hd : '/' ∉ d.toList) :
    hasPrefix (b ++ "/" ++ d) (a ++ "/") = true ↔ a = b ∨ hasPrefix b (a ++ "/") = true := by
  simp only [hasPrefix_iff, String.toList_append]
  constructor
  · rintro ⟨rest, hrest⟩
    have hlist : a.toList ++ '/' :: rest = b.toList ++ '/' :: d.toList := by simpa using hrest
    rcases List.append_eq_append_iff.1 hlist with ⟨c, hb, hc⟩ | ⟨c, ha, hc⟩
    · rcases c with _ | ⟨x, c⟩
      · exact .inl (String.toList_inj.1 (by simpa using hb.symm))
      cases hc
      exact .inr ⟨c, by simp [hb]⟩
    · cases c with
      | nil => exact .inl (String.toList_inj.1 (by simpa using ha))
      | cons x c => exact absurd (by rw [(List.cons.inj hc).2]; simp) hd
  · rintro (rfl | ⟨rest, hrest⟩)
    · exact ⟨d.toList, rfl⟩
    · exact ⟨rest ++ '/' :: d.toList, by simp [← hrest]⟩

/-! ## Case and blanks -/

theorem trimSpace_eq_self (h : ∀ c ∈ s.toList, isSpace c = false) : trimSpace s = s := by
  have hdrop : ∀ l : List Char, (∀ c ∈ l, isSpace c = false) → l.dropWhile isSpace = l := by
    intro l hl
    cases l with
    | nil => rfl
    | cons c l => simp [hl c]
  rw [trimSpace, hdrop _ h, hdrop _ (by simpa using h), List.reverse_reverse, String.ofList_toList]

@[simp] theorem toLower_toLower (s : String) : toLower (toLower s) = toLower s := by
  have hchar : ∀ c : Char, c.toLower.toLower = c.toLower := fun c => by
    unfold Char.toLower
    split_ifs <;> grind
  simp [toLower, Function.comp_def, hchar]

/-! ## Bytes -/

/-- The bytes of a text. -/
def bytes (s : String) : List UInt8 := s.toByteArray.data.toList

@[simp] theorem bytes_append (s t : String) : bytes (s ++ t) = bytes s ++ bytes t := by
  simp [bytes]

theorem bytes_injective : Function.Injective bytes := by
  intro s t h
  exact String.toByteArray_inj.1 (ByteArray.ext (Array.toList_inj.1 h))

theorem bytes_ofList {l : List Char} (hl : ∀ c ∈ l, c.toNat < 128) :
    bytes (String.ofList l) = l.map fun c => c.val.toUInt8 := by
  induction l with
  | nil => rfl
  | cons c l ih =>
    rw [List.forall_mem_cons] at hl
    have hsize : c.utf8Size = 1 := Char.utf8Size_eq_one_iff.2 (Nat.le_of_lt_succ hl.1)
    have hrest := ih hl.2
    rw [bytes, String.toByteArray_ofList] at hrest ⊢
    rw [List.utf8Encode_cons, List.utf8Encode_singleton, String.utf8EncodeChar_eq_singleton hsize]
    simp [hrest]

theorem utf8ByteSize_eq_length (h : ∀ c ∈ s.toList, c.toNat < 128) :
    s.utf8ByteSize = s.toList.length := by
  have hlength := congrArg List.length (bytes_ofList h)
  rwa [String.ofList_toList, List.length_map] at hlength

theorem toNat_of_isDigit {c : Char} (hc : c.isDigit = true) : 48 ≤ c.toNat ∧ c.toNat ≤ 57 := by
  simpa [Char.isDigit, UInt32.le_iff_toNat_le] using hc

theorem ascii_of_isDigit {c : Char} (hc : c.isDigit = true) : c.toNat < 128 :=
  (toNat_of_isDigit hc).2.trans_lt (by decide)

theorem colon_notMem_bytes (n : ℕ) : (58 : UInt8) ∉ bytes (toString n) := by
  have hdigit : ∀ c ∈ Nat.toDigits 10 n, c.isDigit = true := fun c =>
    Nat.isDigit_of_mem_toDigits (by norm_num) (by norm_num)
  rw [Nat.toString_eq_ofList_toDigits, bytes_ofList fun c hc => ascii_of_isDigit (hdigit c hc),
    List.mem_map]
  rintro ⟨c, hc, hbyte⟩
  have hrange := toNat_of_isDigit (hdigit c hc)
  have hnat : c.toNat % 256 = 58 := congrArg UInt8.toNat hbyte
  omega

/-! ## Decimal keys -/

theorem isDigit_of_mem_decimal20 {c : Char} (h : c ∈ (decimal20 n).toList) : c.isDigit = true := by
  simp only [decimal20, String.toList_ofList, List.mem_append, List.mem_replicate] at h
  rcases h with ⟨-, rfl⟩ | h
  · rfl
  · exact Nat.isDigit_of_mem_toDigits (by norm_num) (by norm_num) h

theorem slash_notMem_decimal20 (n : ℕ) : '/' ∉ (decimal20 n).toList := fun h =>
  absurd (isDigit_of_mem_decimal20 h) (by decide)

theorem slash_notMem_of_parseUint (h : parseUint s = some n) : '/' ∉ s.toList := by
  intro hslash
  unfold parseUint at h
  split_ifs at h with hdigits
  exact absurd (List.all_eq_true.1 hdigits.2 '/' hslash) (by decide)

theorem ofDigitChars_decimal20 (n : ℕ) : Nat.ofDigitChars 10 (decimal20 n).toList 0 = n := by
  simp [decimal20, Nat.ofDigitChars_append, Nat.ofDigitChars_replicate_zero]

theorem length_decimal20 (h : n < 2 ^ 64) : (decimal20 n).toList.length = 20 := by
  have hlength : (Nat.toDigits 10 n).length ≤ 20 :=
    (Nat.length_toDigits_le_iff (by norm_num) (by norm_num)).2 (h.trans (by norm_num))
  simp only [decimal20, String.toList_ofList, List.length_append, List.length_replicate]
  omega

theorem parseUint_decimal20 (h : n < 2 ^ 64) : parseUint (decimal20 n) = some n := by
  have hdigits : (decimal20 n).toList ≠ [] ∧ (decimal20 n).toList.all Char.isDigit = true := by
    refine ⟨?_, List.all_eq_true.2 fun c hc => isDigit_of_mem_decimal20 hc⟩
    simp [decimal20, Nat.toDigits_ne_nil]
  simp only [parseUint]
  rw [if_pos hdigits, ← Nat.ofDigitChars_eq_foldl, ofDigitChars_decimal20, if_pos h]

/-- The padded form of a 64-bit number has twenty bytes. -/
theorem utf8ByteSize_decimal20 (h : n < 2 ^ 64) : (decimal20 n).utf8ByteSize = 20 := by
  rw [utf8ByteSize_eq_length fun c hc => ascii_of_isDigit (isDigit_of_mem_decimal20 hc),
    length_decimal20 h]

/-- Of two numbers that go on with as many digits, the one that was smaller before. -/
theorem ofDigitChars_lt {l l' : List Char} {n n' : ℕ} (hlength : l.length = l'.length)
    (hl : ∀ c ∈ l, c.isDigit = true) (h : n < n') :
    Nat.ofDigitChars 10 l n < Nat.ofDigitChars 10 l' n' := by
  induction l generalizing l' n n' with
  | nil =>
    obtain rfl := List.length_eq_zero_iff.1 hlength.symm
    simpa using h
  | cons c l ih =>
    obtain ⟨c', l', rfl⟩ := List.exists_cons_of_length_eq_add_one hlength.symm
    rw [List.forall_mem_cons] at hl
    rw [Nat.ofDigitChars_cons, Nat.ofDigitChars_cons]
    refine ih (Nat.succ.inj hlength) hl.2 ?_
    have hc := toNat_of_isDigit hl.1
    change 10 * n + (c.toNat - 48) < 10 * n' + (c'.toNat - 48)
    omega

/-- Digits compare as their numbers do, also after a translation that keeps their order. -/
theorem map_lt_of_ofDigitChars_lt {α : Type} [LT α] {f : Char → α}
    (hf : ∀ c c' : Char, c'.isDigit = true → c < c' → f c < f c') {l l' : List Char}
    (hlength : l.length = l'.length) (hl : ∀ c ∈ l, c.isDigit = true)
    (hl' : ∀ c ∈ l', c.isDigit = true)
    (h : Nat.ofDigitChars 10 l n < Nat.ofDigitChars 10 l' n) : l.map f < l'.map f := by
  induction l generalizing l' n with
  | nil =>
    obtain rfl := List.length_eq_zero_iff.1 hlength.symm
    exact absurd h (lt_irrefl _)
  | cons c l ih =>
    obtain ⟨c', l', rfl⟩ := List.exists_cons_of_length_eq_add_one hlength.symm
    rw [List.forall_mem_cons] at hl hl'
    rw [Nat.ofDigitChars_cons, Nat.ofDigitChars_cons] at h
    rw [List.map_cons, List.map_cons, List.cons_lt_cons_iff]
    rcases lt_trichotomy c c' with hlt | rfl | hgt
    · exact .inl (hf c c' hl'.1 hlt)
    · exact .inr ⟨rfl, ih (Nat.succ.inj hlength) hl.2 hl'.2 h⟩
    refine absurd h (ofDigitChars_lt (Nat.succ.inj hlength.symm) hl'.2 ?_).asymm
    have hc' := toNat_of_isDigit hl'.1
    have hlt : c'.toNat < c.toNat := hgt
    change 10 * n + (c'.toNat - 48) < 10 * n + (c.toNat - 48)
    omega

/-- Padded numbers are in the order of the numbers. -/
theorem map_decimal20_lt {α : Type} [LT α] {f : Char → α}
    (hf : ∀ c c' : Char, c'.isDigit = true → c < c' → f c < f c') {m : ℕ} (h : n < m)
    (hm : m < 2 ^ 64) : (decimal20 n).toList.map f < (decimal20 m).toList.map f := by
  refine map_lt_of_ofDigitChars_lt (n := 0) hf ?_ (fun _ => isDigit_of_mem_decimal20)
    (fun _ => isDigit_of_mem_decimal20) ?_
  · rw [length_decimal20 (h.trans hm), length_decimal20 hm]
  · rwa [ofDigitChars_decimal20, ofDigitChars_decimal20]

end Text
