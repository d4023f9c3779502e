import Breadboard.Datum.Json.Parse
import Breadboard.Datum.Json.Write

/-!
# JSON text reads back

What is written as JSON without blanks is read as the very same piece of data, if it is one that has
a written form: its numbers are integers of 64 bits, and all of it can be read (`Datum.Written`).

The proof goes through the tokens of a piece of data (`tokensOf`), in two halves that know nothing
of each other: characters are cut into these tokens, and these tokens are put together again. Either
half is stated in front of any rest. A number ends only where the rest does not go on with it
(`EndsNumber`); after all else nothing is asked of the rest.

* `Datum.induct`: induction over a piece of data through its items and members;
* `scanNumber_writeNat`, `scanString_escape`: numbers and strings;
* `tokens_compactChars`, `parseFrom_tokensOf`: the two halves;
* **`parse?_compact`**: the compact text of a written piece of data is read as that piece.
-/

namespace Breadboard

/-! ## Data that are written -/

namespace Datum

/-- **Induction over a piece of data**: what holds of a list or table whenever it holds of what is
in it holds of all data. -/
theorem induct {P : Datum → Prop} (null : P .null) (bool : ∀ b, P (.bool b))
    (integer : ∀ n, P (.integer n)) (real : P .real) (text : ∀ s, P (.text s))
    (unreadable : P .unreadable) (list : ∀ items, (∀ d ∈ items, P d) → P (.list items))
    (table : ∀ members, (∀ m ∈ members, P m.2) → P (.table members)) : ∀ d, P d :=
  fun d => Datum.rec (motive_1 := P) (motive_2 := fun l => ∀ d ∈ l, P d)
    (motive_3 := fun l => ∀ m ∈ l, P m.2) (motive_4 := fun m => P m.2)
    null bool integer real text unreadable list table
    (fun _ h => absurd h List.not_mem_nil)
    (fun _ _ h hs e he => (List.mem_cons.1 he).elim (fun heq => heq ▸ h) (hs e))
    (fun _ h => absurd h List.not_mem_nil)
    (fun _ _ h hs m hm => (List.mem_cons.1 hm).elim (fun heq => heq ▸ h) (hs m))
    (fun _ _ h => h) d

mutual

/-- The piece has a written form: its numbers are integers whose digits fit a word of 64 bits. -/
def Written : Datum → Prop
  | real | unreadable => False
  | integer n => -(UInt64.size : Int) < n ∧ n < UInt64.size
  | list items => WrittenList items
  | table members => WrittenTable members
  | null | bool _ | text _ => True

/-- All items have a written form. -/
def WrittenList : List Datum → Prop
  | [] => True
  | d :: rest => d.Written ∧ WrittenList rest

/-- All members have a written form. -/
def WrittenTable : List (String × Datum) → Prop
  | [] => True
  | (_, d) :: rest => d.Written ∧ WrittenTable rest

end

@[simp] theorem written_list {items : List Datum} :
    (list items).Written ↔ ∀ d ∈ items, d.Written := by
  rw [Written]
  induction items with
  | nil => simp [WrittenList]
  | cons d rest ih => rw [WrittenList, ih, List.forall_mem_cons]

@[simp] theorem written_table {members : List (String × Datum)} :
    (table members).Written ↔ ∀ m ∈ members, m.2.Written := by
  rw [Written]
  induction members with
  | nil => simp [WrittenTable]
  | cons m rest ih => rw [WrittenTable, ih, List.forall_mem_cons]

end Datum

namespace Json

open Text (writeNat writeInt hexNumber?)

/-! ## Numbers -/

/-- No number goes on in the rest of a text. -/
def EndsNumber (rest : List Char) : Prop :=
  ∀ c ∈ rest.head?, c.isDigit = false ∧ c ≠ '.' ∧ c ≠ 'e' ∧ c ≠ 'E'

theorem endsNumber_nil : EndsNumber [] := by simp [EndsNumber]

theorem endsNumber_cons (c : Char) (rest : List Char)
    (hc : c.isDigit = false ∧ c ≠ '.' ∧ c ≠ 'e' ∧ c ≠ 'E') : EndsNumber (c :: rest) := by
  rintro _ ⟨⟩
  exact hc

section Number

variable {n : Nat} {rest : List Char}

/-- Digits are scanned up to where the number ends. -/
theorem scanDigits_append {ds : List Char} (hne : ds ≠ []) (hds : ∀ c ∈ ds, c.isDigit = true)
    (h : EndsNumber rest) : scanDigits (ds ++ rest) = some (ds, rest) := by
  have htake : rest.takeWhile Char.isDigit = [] := by
    cases rest with
    | nil => rfl
    | cons c rest => rw [List.takeWhile_cons, (h c rfl).1]; rfl
  have hdrop : rest.dropWhile Char.isDigit = rest := by
    cases rest with
    | nil => rfl
    | cons c rest => rw [List.dropWhile_cons, (h c rfl).1]; rfl
  unfold scanDigits
  rw [List.takeWhile_append_of_pos hds, List.dropWhile_append_of_pos hds, htake, hdrop,
    List.append_nil]
  simp [hne]

theorem scanWhole_writeNat (h : EndsNumber rest) :
    scanWhole (writeNat n ++ rest) = some (writeNat n, rest) := by
  rcases Nat.eq_zero_or_pos n with rfl | hn
  · rfl
  · have hhead := Text.head?_writeNat hn
    have hscan := scanDigits_append (Text.writeNat_ne_nil n)
      (fun _ => Text.isDigit_of_mem_writeNat) h
    unfold scanWhole
    split
    · -- the first digit is no zero
      rename_i hzero
      cases hds : writeNat n with
      | nil => exact absurd hds (Text.writeNat_ne_nil n)
      | cons d ds =>
        rw [hds, List.cons_append, List.cons.injEq] at hzero
        rw [hds] at hhead
        exact absurd (congrArg some hzero.1) hhead
    · exact hscan

/-- Digits whose number fits a word all count for it. -/
theorem appendDigits_of_lt {ds : List Char} : ∀ {m : Nat},
    Nat.ofDigitChars 10 ds m < UInt64.size →
      appendDigits m ds = (Nat.ofDigitChars 10 ds m, ds.length) := by
  have hle : ∀ (ds : List Char) (m : Nat), m ≤ Nat.ofDigitChars 10 ds m := by
    intro ds
    induction ds with
    | nil => exact fun m => Nat.le_refl m
    | cons d ds ih =>
      intro m
      rw [Nat.ofDigitChars_cons]
      exact Nat.le_trans (by omega) (ih _)
  induction ds with
  | nil => exact fun _ => rfl
  | cons d ds ih =>
    intro m h
    have hsplit : Nat.ofDigitChars 10 (d :: ds) m =
        Nat.ofDigitChars 10 ds (Nat.ofDigitChars 10 [d] m) :=
      Nat.ofDigitChars_append (l := [d]) m
    rw [hsplit] at h ⊢
    unfold appendDigits
    simp only [if_pos (Nat.lt_of_le_of_lt (hle ds _) h), ih h, List.length_cons]

theorem numberOf_writeNat {negative : Bool} (h : n < UInt64.size)
    (hzero : (negative && n == 0) = false) :
    numberOf negative (writeNat n) [] none = .integer (if negative then -(n : Int) else n) := by
  have hvalue : Nat.ofDigitChars 10 (writeNat n) 0 = n :=
    Nat.ofDigitChars_toDigits (by decide) (by decide)
  have hrange : inRange (writeNat n) [] 0 = true := by
    have happend := appendDigits_of_lt (Nat.lt_of_le_of_lt (Nat.le_of_eq hvalue) h)
    unfold inRange
    rw [happend, hvalue]
    simp [appendDigits, productFitsBinary64]
  unfold numberOf
  simp [hvalue, hrange, hzero]

/-- **A word written in digits is scanned as its number.** -/
theorem scanNumber_writeNat {negative : Bool} (h : n < UInt64.size)
    (hzero : (negative && n == 0) = false) (hrest : EndsNumber rest) :
    scanNumber negative (writeNat n ++ rest) =
      some (.integer (if negative then -(n : Int) else n), rest) := by
  have hfraction : scanFraction rest = some ([], rest) := by
    unfold scanFraction
    split
    · exact absurd rfl (hrest '.' rfl).2.1
    · rfl
  have hexponent : scanExponent rest = some (none, rest) := by
    unfold scanExponent
    split
    · exact absurd rfl (hrest 'e' rfl).2.2.1
    · exact absurd rfl (hrest 'E' rfl).2.2.2
    · rfl
  unfold scanNumber
  rw [scanWhole_writeNat hrest]
  simp only [hfraction, hexponent, Option.map_some, numberOf_writeNat h hzero]

end Number

/-! ## Strings -/

theorem hexNumber?_hexDigit : ∀ n < 0x20,
    hexNumber? ['0', '0', hexDigit (n / 16), hexDigit (n % 16)] = some n := by
  decide

/-- A unit below the halves of pairs is a character by itself. -/
theorem charsOf?_unit {n : Nat} (h : n < 0xD800) (ps : List Piece) :
    charsOf? (.unit n :: ps) = (charsOf? ps).map (.ofNat n :: ·) := by
  cases ps with
  | nil => simp [charsOf?, Nat.not_le.2 h]
  | cons p ps =>
    cases p with
    | char c => simp [charsOf?, Nat.not_le.2 h]
    | unit m =>
      rw [charsOf?, if_neg (by omega), if_neg (by omega)]

/-- **A character is escaped as one piece**, which stands for that character. -/
theorem exists_piece_escape (c : Char) :
    ∃ p, (∀ rest, scanString (escape c ++ rest) =
        (scanString rest).map fun r => (p :: r.1, r.2)) ∧
      ∀ ps, charsOf? (p :: ps) = (charsOf? ps).map (c :: ·) := by
  have hletter : ∀ e : Char, e ≠ 'u' → unescape? e = some c →
      ∃ p, (∀ rest, scanString (['\\', e] ++ rest) =
          (scanString rest).map fun r => (p :: r.1, r.2)) ∧
        ∀ ps, charsOf? (p :: ps) = (charsOf? ps).map (c :: ·) := by
    intro e hu he
    refine ⟨.char c, fun rest => ?_, fun ps => by rw [charsOf?]⟩
    rw [List.cons_append, List.singleton_append, scanString, he]
    · cases scanString rest <;> rfl
    · rintro _ _ _ _ _ h
      exact absurd h hu
  unfold escape
  split
  · exact hletter '"' (by decide) (by subst c; rfl)
  split
  · exact hletter '\\' (by decide) (by subst c; rfl)
  split
  · exact hletter 'b' (by decide) (by subst c; rfl)
  split
  · exact hletter 'f' (by decide) (by subst c; rfl)
  split
  · exact hletter 'n' (by decide) (by subst c; rfl)
  split
  · exact hletter 'r' (by decide) (by subst c; rfl)
  split
  · exact hletter 't' (by decide) (by subst c; rfl)
  split
  · -- a control character without a letter is the unit of its number
    rename_i hcontrol
    refine ⟨.unit c.toNat, fun rest => ?_, fun ps => ?_⟩
    · simp only [List.cons_append, List.nil_append]
      rw [scanString, hexNumber?_hexDigit _ hcontrol]
      cases scanString rest <;> rfl
    · rw [charsOf?_unit (by omega), Char.ofNat_toNat]
  · -- any other character stands for itself
    rename_i hquote hslash _ _ _ _ _ hplain
    refine ⟨.char c, fun rest => ?_, fun ps => by rw [charsOf?]⟩
    rw [List.singleton_append, scanString]
    · cases scanString rest with
      | none => rfl
      | some r => simp [hplain]
    · exact hquote
    · exact fun _ _ _ _ _ hc _ => hslash hc
    · exact fun _ _ hc _ => hslash hc

/-- **An escaped text is scanned up to its closing quote**, as pieces that make up the text. -/
theorem scanString_escape (cs rest : List Char) :
    ∃ ps, scanString (cs.flatMap escape ++ '"' :: rest) = some (ps, rest) ∧
      charsOf? ps = some cs := by
  induction cs with
  | nil => exact ⟨[], by rw [List.flatMap_nil, List.nil_append, scanString], by rw [charsOf?]⟩
  | cons c cs ih =>
    obtain ⟨ps, hscan, hchars⟩ := ih
    obtain ⟨p, hfirst, hstands⟩ := exists_piece_escape c
    refine ⟨p :: ps, ?_, ?_⟩
    · rw [List.flatMap_cons, List.append_assoc, hfirst, hscan]
      rfl
    · rw [hstands, hchars]
      rfl

/-! ## Tokens -/

mutual

/-- The tokens of a piece of data. -/
def tokensOf : Datum → List Token
  | .list items => .openList :: (tokensOfItems items ++ [.closeList])
  | .table members => .openTable :: (tokensOfMembers members ++ [.closeTable])
  | .text s => [.string (some s)]
  | .null => [.scalar .null]
  | .bool b => [.scalar (.bool b)]
  | .integer n => [.scalar (.integer n)]
  | .real => [.scalar .real]
  | .unreadable => [.scalar .unreadable]

/-- The tokens of items, between commas. -/
def tokensOfItems : List Datum → List Token
  | [] => []
  | [d] => tokensOf d
  | d :: rest => tokensOf d ++ .comma :: tokensOfItems rest

/-- The tokens of members, between commas. -/
def tokensOfMembers : List (String × Datum) → List Token
  | [] => []
  | [(name, d)] => .string (some name) :: .colon :: tokensOf d
  | (name, d) :: rest =>
    .string (some name) :: .colon :: (tokensOf d ++ .comma :: tokensOfMembers rest)

end

/-! ### From characters to tokens -/

/-- A token at the front of a text. -/
theorem tokens_cons {c : Char} {cs rest : List Char} {t : Token} (hspace : isSpace c = false)
    (h : scanToken (c :: cs) = some (t, rest)) :
    tokens (c :: cs) = (tokens rest).map (t :: ·) := by
  rw [tokens, hspace, if_neg (by simp)]
  split
  · rename_i h'
    rw [h] at h'
    cases h'
    rfl
  · rename_i h'
    rw [h] at h'
    cases h'

theorem tokens_quote (s : String) (rest : List Char) :
    tokens (quote s ++ rest) = (tokens rest).map (.string (some s) :: ·) := by
  obtain ⟨ps, hscan, hchars⟩ := scanString_escape s.toList rest
  have hquote : quote s ++ rest = '"' :: (s.toList.flatMap escape ++ '"' :: rest) := by
    simp [quote]
  rw [hquote]
  refine tokens_cons rfl ?_
  rw [scanToken, hscan]
  simp [hchars]

/-- A text that begins with a digit begins with a number. -/
theorem scanToken_of_isDigit {c : Char} (h : c.isDigit = true) (cs : List Char) :
    scanToken (c :: cs) = (scanNumber false (c :: cs)).map fun r => (.scalar r.1, r.2) := by
  unfold scanToken
  split
  case h_12 => rfl
  all_goals
    rename_i heq
    exact absurd ((List.cons.inj heq).1 ▸ h) (by decide)

theorem isSpace_of_isDigit {c : Char} (h : c.isDigit = true) : isSpace c = false := by
  have hne : ∀ b : Char, b.isDigit = false → (c == b) = false := by
    rintro b hb
    rw [beq_eq_false_iff_ne]
    rintro rfl
    exact Bool.false_ne_true (hb.symm.trans h)
  unfold isSpace
  rw [hne ' ' rfl, hne '\n' rfl, hne '\t' rfl, hne '\r' rfl]
  rfl

theorem tokens_writeInt {n : Int} (h : (Datum.integer n).Written) {rest : List Char}
    (hrest : EndsNumber rest) :
    tokens (writeInt n ++ rest) = (tokens rest).map (.scalar (.integer n) :: ·) := by
  obtain ⟨hlow, hhigh⟩ := h
  cases n with
  | ofNat n =>
    have hlt : n < UInt64.size := Int.ofNat_lt.1 hhigh
    have hzero : (false && n == 0) = false := rfl
    have hscan := scanNumber_writeNat hlt hzero hrest
    rw [writeInt]
    cases hds : writeNat n with
    | nil => exact absurd hds (Text.writeNat_ne_nil n)
    | cons d ds =>
      have hdigit : d.isDigit = true :=
        Text.isDigit_of_mem_writeNat (n := n) (by rw [hds]; exact List.mem_cons_self)
      rw [hds, List.cons_append] at hscan
      rw [List.cons_append]
      refine tokens_cons (isSpace_of_isDigit hdigit) ?_
      rw [scanToken_of_isDigit hdigit, hscan]
      rfl
  | negSucc n =>
    have hlt : n + 1 < UInt64.size := by omega
    have hzero : (true && n + 1 == 0) = false := by simp
    have hscan := scanNumber_writeNat hlt hzero hrest
    rw [writeInt, List.cons_append]
    refine tokens_cons rfl ?_
    rw [scanToken, hscan]
    simp [Int.negSucc_eq]

/-- The characters of a piece are cut into its tokens, in front of anything that does not go on with
a number. -/
def CutsInto (cs : List Char) (ts : List Token) : Prop :=
  ∀ rest, EndsNumber rest → tokens (cs ++ rest) = (tokens rest).map (ts ++ ·)

theorem tokens_compactItems {items : List Datum}
    (h : ∀ d ∈ items, CutsInto (compactChars d) (tokensOf d)) :
    CutsInto (compactItems items) (tokensOfItems items) := by
  induction items with
  | nil =>
    intro rest _
    simp [compactItems, tokensOfItems]
  | cons d items ih =>
    intro rest hrest
    rw [List.forall_mem_cons] at h
    cases items with
    | nil =>
      rw [compactItems, tokensOfItems]
      exact h.1 rest hrest
    | cons e items =>
      have hcomma : tokens (',' :: (compactItems (e :: items) ++ rest)) = _ := tokens_cons rfl rfl
      rw [compactItems, tokensOfItems, List.append_assoc, List.cons_append,
        h.1 _ (endsNumber_cons ',' _ (by decide)), hcomma, ih h.2 rest hrest]
      · simp [Function.comp_def]
      · simp
      · simp

theorem tokens_compactMembers {members : List (String × Datum)}
    (h : ∀ m ∈ members, CutsInto (compactChars m.2) (tokensOf m.2)) :
    CutsInto (compactMembers members) (tokensOfMembers members) := by
  induction members with
  | nil =>
    intro rest _
    simp [compactMembers, tokensOfMembers]
  | cons m members ih =>
    obtain ⟨name, d⟩ := m
    intro rest hrest
    rw [List.forall_mem_cons] at h
    have hcolon : ∀ cs, tokens (quote name ++ ':' :: cs) =
        (tokens cs).map fun ts => .string (some name) :: .colon :: ts := by
      intro cs
      have hfirst : tokens (':' :: cs) = _ := tokens_cons rfl rfl
      rw [tokens_quote, hfirst, Option.map_map]
      rfl
    cases members with
    | nil =>
      rw [compactMembers, tokensOfMembers, List.append_assoc, List.cons_append, hcolon,
        h.1 rest hrest, Option.map_map]
      rfl
    | cons e members =>
      have hcomma : tokens (',' :: (compactMembers (e :: members) ++ rest)) = _ :=
        tokens_cons rfl rfl
      rw [compactMembers, tokensOfMembers]
      · simp only [List.append_assoc, List.cons_append]
        rw [hcolon, h.1 _ (endsNumber_cons ',' _ (by decide)), hcomma, ih h.2 rest hrest]
        simp [Function.comp_def]
      · simp
      · simp

/-- **The text of a piece of data is cut into its tokens.** -/
theorem tokens_compactChars (d : Datum) : d.Written → CutsInto (compactChars d) (tokensOf d) := by
  induction d using Datum.induct with
  | null => exact fun _ rest _ => by rw [compactChars, tokensOf]; exact tokens_cons rfl rfl
  | bool b =>
    intro _ rest _
    cases b <;> (rw [compactChars, tokensOf]; exact tokens_cons rfl rfl)
  | integer n =>
    intro h rest hrest
    rw [compactChars, tokensOf]
    exact tokens_writeInt h hrest
  | real | unreadable => exact fun h => absurd h (by simp [Datum.Written])
  | text s =>
    intro _ rest _
    rw [compactChars, tokensOf]
    exact tokens_quote s rest
  | list items ih =>
    intro h rest hrest
    rw [Datum.written_list] at h
    have hitems := tokens_compactItems fun d hd => ih d hd (h d hd)
    have hopen : tokens ('[' :: (compactItems items ++ ']' :: rest)) = _ := tokens_cons rfl rfl
    have hclose : tokens (']' :: rest) = _ := tokens_cons rfl rfl
    rw [compactChars, tokensOf]
    simp only [List.cons_append, List.append_assoc, List.nil_append]
    rw [hopen, hitems _ (endsNumber_cons ']' rest (by decide)), hclose]
    simp [Function.comp_def]
  | table members ih =>
    intro h rest hrest
    rw [Datum.written_table] at h
    have hmembers := tokens_compactMembers fun m hm => ih m hm (h m hm)
    have hopen : tokens ('\x7b' :: (compactMembers members ++ '\x7d' :: rest)) = _ :=
      tokens_cons rfl rfl
    have hclose : tokens ('\x7d' :: rest) = _ := tokens_cons rfl rfl
    rw [compactChars, tokensOf]
    simp only [List.cons_append, List.append_assoc, List.nil_append]
    rw [hopen, hmembers _ (endsNumber_cons '\x7d' rest (by decide)), hclose]
    simp [Function.comp_def]

/-! ### From tokens to data -/

/-- Where a value must come, the tokens are put together to the piece of data. -/
def PutsTogether (ts : List Token) (d : Datum) : Prop :=
  ∀ frames rest, parseFrom .value frames (ts ++ rest) = parseFrom (.afterValue d) frames rest

/-- The first item of a list is a value like the others. -/
theorem parseFrom_firstItem {t : Token} (h : t ≠ .closeList) (frames : List Frame)
    (ts : List Token) :
    parseFrom .firstItem frames (t :: ts) = parseFrom .value (.list [] :: frames) (t :: ts) := by
  cases t with
  | closeList => exact absurd rfl h
  | openList | openTable | closeTable | comma | colon | string s | scalar d => rfl

/-- No piece of data begins with the end of a list. -/
theorem exists_tokensOf_eq_cons (d : Datum) : ∃ t ts, tokensOf d = t :: ts ∧ t ≠ .closeList := by
  cases d <;> exact ⟨_, _, by rw [tokensOf], by simp⟩

theorem parseFrom_tokensOfItems {items : List Datum} (hne : items ≠ [])
    (h : ∀ d ∈ items, PutsTogether (tokensOf d) d) :
    ∀ (before : List Datum) (frames : List Frame) (rest : List Token),
      parseFrom .value (.list before :: frames) (tokensOfItems items ++ .closeList :: rest) =
        parseFrom (.afterValue (.list (before.reverse ++ items))) frames rest := by
  induction items with
  | nil => exact absurd rfl hne
  | cons d items ih =>
    intro before frames rest
    rw [List.forall_mem_cons] at h
    cases items with
    | nil =>
      rw [tokensOfItems, h.1, parseFrom, List.reverse_cons]
    | cons e items =>
      rw [tokensOfItems, List.append_assoc, List.cons_append, h.1, parseFrom,
        ih (by simp) h.2, List.reverse_cons, List.append_assoc]
      · rfl
      · simp

theorem tableOf_reverse (members : List (String × Datum)) :
    tableOf (members.map fun m => (some m.1, m.2)).reverse = .table members := by
  have hnames : (members.map fun m => (some m.1, m.2)).mapM
      (fun m => m.1.map (·, m.2)) = some members := by
    induction members with
    | nil => rfl
    | cons m members ih => simp [ih]
  unfold tableOf
  rw [List.reverse_reverse, hnames]

theorem parseFrom_tokensOfMembers {name : String} {d : Datum} {members : List (String × Datum)}
    (h : ∀ m ∈ (name, d) :: members, PutsTogether (tokensOf m.2) m.2) :
    ∀ (before : List (String × Datum)) (frames : List Frame) (rest : List Token),
      parseFrom (.name (before.map fun m => (some m.1, m.2)).reverse) frames
          (tokensOfMembers ((name, d) :: members) ++ .closeTable :: rest) =
        parseFrom (.afterValue (.table (before ++ (name, d) :: members))) frames rest := by
  induction members generalizing name d with
  | nil =>
    intro before frames rest
    have htable := tableOf_reverse (before ++ [(name, d)])
    rw [List.map_append, List.reverse_append] at htable
    simp only [tokensOfMembers, List.cons_append, parseFrom]
    rw [h (name, d) List.mem_cons_self, parseFrom]
    exact congrArg (fun t => parseFrom (.afterValue t) frames rest) htable
  | cons m members ih =>
    obtain ⟨name', d'⟩ := m
    intro before frames rest
    rw [List.forall_mem_cons] at h
    rw [tokensOfMembers]
    · simp only [List.cons_append, List.append_assoc, parseFrom]
      rw [h.1, parseFrom]
      have hrest := ih h.2 (before ++ [(name, d)]) frames rest
      rw [List.map_append, List.reverse_append] at hrest
      simpa using hrest
    · simp

/-- The first name of a table is a name like the others. -/
theorem parseFrom_firstName (frames : List Frame) (name : Option String) (ts : List Token) :
    parseFrom .firstName frames (.string name :: ts) =
      parseFrom (.name []) frames (.string name :: ts) := rfl

/-- **The tokens of a piece of data are put together to that piece.** -/
theorem parseFrom_tokensOf (d : Datum) : PutsTogether (tokensOf d) d := by
  induction d using Datum.induct with
  | null | bool b | integer n | real | text s | unreadable =>
    intro frames rest
    rw [tokensOf]
    rfl
  | list items ih =>
    intro frames rest
    rw [tokensOf]
    simp only [List.cons_append, List.append_assoc, List.nil_append, parseFrom]
    cases items with
    | nil => rw [tokensOfItems]; rfl
    | cons d items =>
      have hfirst : ∃ t ts, tokensOfItems (d :: items) = t :: ts ∧ t ≠ .closeList := by
        obtain ⟨t, ts, hts, ht⟩ := exists_tokensOf_eq_cons d
        cases items with
        | nil => exact ⟨t, ts, by rw [tokensOfItems, hts], ht⟩
        | cons e items =>
          exact ⟨t, ts ++ .comma :: tokensOfItems (e :: items), by
            rw [tokensOfItems, hts, List.cons_append]; simp, ht⟩
      have hitems := parseFrom_tokensOfItems (by simp) ih [] frames rest
      obtain ⟨t, ts, hts, ht⟩ := hfirst
      rw [hts, List.cons_append] at hitems ⊢
      rw [parseFrom_firstItem ht, hitems]
      rfl
  | table members ih =>
    intro frames rest
    rw [tokensOf]
    simp only [List.cons_append, List.append_assoc, List.nil_append, parseFrom]
    cases members with
    | nil => rw [tokensOfMembers]; rfl
    | cons m members =>
      obtain ⟨name, d⟩ := m
      have hmembers := parseFrom_tokensOfMembers ih [] frames rest
      have hfirst : ∃ ts, tokensOfMembers ((name, d) :: members) = .string (some name) :: ts := by
        cases members with
        | nil => exact ⟨_, by rw [tokensOfMembers]⟩
        | cons e members => exact ⟨_, by rw [tokensOfMembers]; simp⟩
      obtain ⟨ts, hts⟩ := hfirst
      rw [hts, List.cons_append] at hmembers ⊢
      rw [parseFrom_firstName]
      exact hmembers

/-- **The compact text of a written piece of data is read as that piece.** -/
theorem parse?_compact {d : Datum} (h : d.Written) : parse? (compact d) = some d := by
  have htokens := tokens_compactChars d h [] endsNumber_nil
  have hdata := parseFrom_tokensOf d [] []
  rw [List.append_nil] at htokens hdata
  unfold parse? compact
  rw [String.toList_ofList, htokens, tokens]
  simpa [parseFrom] using hdata

end Json

end Breadboard
