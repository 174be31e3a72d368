import LittleScheme.Proofs.Text.Decimal
import LittleScheme.Text.Blank
import LittleScheme.Text.Lines

/-!
# Texts on one line

Many characters break a line, and all of them are blank.  So a text whose only blanks are spaces
stands on one line, however lines are told apart.  Such a text is `OneLine` if it is not empty.
-/

namespace LittleScheme.Text

/-- The only blanks among the characters are spaces. -/
def Unbroken (cs : List Char) : Prop := ∀ c ∈ cs, isBlank c = true → c = ' '

instance (cs : List Char) : Decidable (Unbroken cs) :=
  decidable_of_iff (cs.all fun c => !isBlank c || c == ' ') (by
    simp [Unbroken, or_iff_not_imp_left])

/-- There is something on the line, and nothing that could break it. -/
def OneLine (text : String) : Prop := text ≠ "" ∧ Unbroken text.toList

instance (text : String) : Decidable (OneLine text) := inferInstanceAs (Decidable (_ ∧ _))

theorem unbroken_append {cs cs' : List Char} :
    Unbroken (cs ++ cs') ↔ Unbroken cs ∧ Unbroken cs' := by
  simp only [Unbroken, List.mem_append, or_imp, forall_and]

theorem unbroken_cons {c : Char} {cs : List Char} :
    Unbroken (c :: cs) ↔ (isBlank c = true → c = ' ') ∧ Unbroken cs := by
  simp [Unbroken]

theorem unbroken_of_visible {cs : List Char} (visible : ∀ c ∈ cs, isBlank c = false) :
    Unbroken cs := by
  intro c member blank
  simp [visible c member] at blank

theorem oneLine_ofList {cs : List Char} (nonempty : cs ≠ []) (unbroken : Unbroken cs) :
    OneLine (String.ofList cs) := by
  refine ⟨?_, by simpa using unbroken⟩
  intro empty
  have := congrArg String.toList empty
  simp_all

theorem OneLine.append {a b : String} (first : OneLine a) (second : Unbroken b.toList) :
    OneLine (a ++ b) := by
  refine ⟨?_, ?_⟩
  · intro empty
    have := congrArg String.toList empty
    simp_all [OneLine]
  · rw [String.toList_append, unbroken_append]
    exact ⟨first.2, second⟩

/-- No blank is a digit or a sign. -/
theorem isBlank_of_decimal {n : Int} {c : Char} (member : c ∈ decimal n) : isBlank c = false := by
  have digit {m : Nat} (member : c ∈ Nat.toDigits 10 m) : isBlank c = false := by
    have bounds := isDigit_iff.1 (isDigit_of_mem_toDigits member)
    simp [isBlank]
    omega
  cases n with
  | ofNat n => exact digit member
  | negSucc n =>
    rcases List.mem_cons.1 member with rfl | later
    · decide
    · exact digit later

theorem oneLine_decimalText (n : Int) : OneLine (decimalText n) := by
  refine oneLine_ofList ?_ (unbroken_of_visible fun c => isBlank_of_decimal)
  cases n with
  | ofNat n => exact Nat.toDigits_ne_nil
  | negSucc n => simp [decimal]

/-! ## Writing and reading lines -/

theorem linesFrom_cons {c : Char} (feed : c ≠ '\n') (ret : c ≠ '\r') (line cs : List Char) :
    linesFrom line (c :: cs) = linesFrom (c :: line) cs := by
  rw [linesFrom] <;> simp_all

/-- An unbroken text reaches up to the line feed behind it. -/
theorem linesFrom_append {cs : List Char} (unbroken : Unbroken cs) (line rest : List Char) :
    linesFrom line (cs ++ '\n' :: rest) =
      String.ofList (line.reverse ++ cs) :: linesFrom [] rest := by
  induction cs generalizing line with
  | nil => simp [linesFrom]
  | cons c cs ih =>
    obtain ⟨first, later⟩ := unbroken_cons.1 unbroken
    have feed : c ≠ '\n' := by
      rintro rfl
      exact absurd (first rfl) (by decide)
    have ret : c ≠ '\r' := by
      rintro rfl
      exact absurd (first rfl) (by decide)
    rw [List.cons_append, linesFrom_cons feed ret, ih later]
    simp

/-- What is written line by line is read line by line. -/
theorem lines_join {texts : List String} (oneLine : ∀ text ∈ texts, OneLine text) :
    lines (String.join (texts.map (· ++ "\n"))) = texts := by
  induction texts with
  | nil => decide +kernel
  | cons text texts ih =>
    obtain ⟨first, later⟩ := List.forall_mem_cons.1 oneLine
    have written : (String.join ((text :: texts).map (· ++ "\n"))).toList =
        text.toList ++ '\n' :: (String.join (texts.map (· ++ "\n"))).toList := by
      simp [String.join_cons]
    rw [lines, written, linesFrom_append first.2, ← lines, ih later]
    simp

end LittleScheme.Text
