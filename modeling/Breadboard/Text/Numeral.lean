/-!
# Decimal numerals

`writeInt` writes an integer with its fewest digits; `readInt?` reads an optional sign and at least
one digit, leading zeros allowed. `readInt64?` takes only integers of 64 bits.
-/

namespace Breadboard.Text

/-- The digits of `n`. -/
def writeNat (n : Nat) : List Char := Nat.toDigits 10 n

/-- The digits of `i`, after a minus sign if it is negative. -/
def writeInt : Int → List Char
  | .ofNat n => writeNat n
  | .negSucc n => '-' :: writeNat (n + 1)

/-- The number written by at least one digit and nothing else. -/
def readNat? (cs : List Char) : Option Nat :=
  if cs ≠ [] ∧ cs.all Char.isDigit then some (Nat.ofDigitChars 10 cs 0) else none

/-- The number written by an optional sign and at least one digit. -/
def readInt? : List Char → Option Int
  | '-' :: cs => (readNat? cs).map fun n => -(n : Int)
  | '+' :: cs => (readNat? cs).map Int.ofNat
  | cs => (readNat? cs).map Int.ofNat

/-- `i` as a signed word, if it fits. -/
def int64? (i : Int) : Option Int64 :=
  if Int64.minValue.toInt ≤ i ∧ i ≤ Int64.maxValue.toInt then some (Int64.ofInt i) else none

/-- `i` as an unsigned word, if it fits. -/
def uint64? (i : Int) : Option UInt64 :=
  if 0 ≤ i ∧ i < UInt64.size then some (UInt64.ofNat i.toNat) else none

/-- The signed word written by an optional sign and at least one digit. -/
def readInt64? (cs : List Char) : Option Int64 := (readInt? cs).bind int64?

/-- The unsigned word written by an optional plus sign and at least one digit. -/
def readUInt64? : List Char → Option UInt64
  | '+' :: cs => (readNat? cs).bind fun n => uint64? n
  | cs => (readNat? cs).bind fun n => uint64? n

/-- The digits of an integer as a string. -/
def showInt (i : Int) : String := String.ofList (writeInt i)

/-- The digits of a number as a string. -/
def showNat (n : Nat) : String := String.ofList (writeNat n)

/-! ## Lemmas -/

theorem writeNat_ne_nil (n : Nat) : writeNat n ≠ [] := Nat.toDigits_ne_nil

theorem isDigit_of_mem_writeNat {n : Nat} {c : Char} (h : c ∈ writeNat n) : c.isDigit = true :=
  Nat.isDigit_of_mem_toDigits (by decide) (by decide) h

/-- A positive number is written without a leading zero. -/
theorem head?_writeNat {n : Nat} (h : 0 < n) : (writeNat n).head? ≠ some '0' := by
  induction n using Nat.strongRecOn with
  | ind n ih =>
    unfold writeNat
    by_cases hn : n < 10
    · have hdigit : ∀ m < 10, 0 < m → Nat.digitChar m ≠ '0' := by decide
      rw [Nat.toDigits_of_lt_base hn]
      simpa using hdigit n hn h
    · have hfront := List.head?_eq_some_head (writeNat_ne_nil (n / 10))
      have hrest := ih (n / 10) (by omega) (by omega)
      rw [hfront] at hrest
      unfold writeNat at hfront
      rw [Nat.toDigits_of_base_le (by decide) (by omega), List.head?_append, hfront]
      exact hrest

/-- **A written number reads back.** -/
theorem readNat?_writeNat (n : Nat) : readNat? (writeNat n) = some n := by
  have h : (writeNat n).all Char.isDigit = true :=
    List.all_eq_true.2 fun _ hc => isDigit_of_mem_writeNat hc
  rw [readNat?, if_pos ⟨writeNat_ne_nil n, h⟩, writeNat,
    Nat.ofDigitChars_toDigits (by decide) (by decide)]

theorem readInt?_of_isDigit {c : Char} {cs : List Char} (h : c.isDigit = true) :
    readInt? (c :: cs) = (readNat? (c :: cs)).map Int.ofNat := by
  rw [readInt?]
  · intro _ he
    exact absurd ((List.cons.inj he).1 ▸ h) (by decide)
  · intro _ he
    exact absurd ((List.cons.inj he).1 ▸ h) (by decide)

/-- **A written integer reads back.** -/
theorem readInt?_writeInt (i : Int) : readInt? (writeInt i) = some i := by
  cases i with
  | ofNat n =>
    have hn := readNat?_writeNat n
    have hd := fun c => isDigit_of_mem_writeNat (n := n) (c := c)
    simp only [writeInt]
    cases h : writeNat n with
    | nil => exact absurd h (writeNat_ne_nil n)
    | cons c cs =>
      rw [h] at hn hd
      rw [readInt?_of_isDigit (hd c List.mem_cons_self), hn]
      rfl
  | negSucc n =>
    simp only [writeInt, readInt?, readNat?_writeNat]
    rfl

@[simp] theorem int64?_toInt (x : Int64) : int64? x.toInt = some x := by
  have hmin : Int64.minValue.toInt = -9223372036854775808 := by decide
  have hmax : Int64.maxValue.toInt = 9223372036854775807 := by decide
  have h1 := x.le_toInt
  have h2 := x.toInt_lt
  rw [int64?, if_pos ⟨by omega, by omega⟩, Int64.ofInt_toInt]

@[simp] theorem uint64?_toNat (x : UInt64) : uint64? x.toNat = some x := by
  have h := x.toNat_lt_size
  rw [uint64?, if_pos ⟨Int.natCast_nonneg _, Int.ofNat_lt.2 h⟩, Int.toNat_natCast,
    UInt64.ofNat_toNat]

/-- **A written word reads back.** -/
theorem readInt64?_writeInt (x : Int64) : readInt64? (writeInt x.toInt) = some x := by
  simp [readInt64?, readInt?_writeInt]

end Breadboard.Text
