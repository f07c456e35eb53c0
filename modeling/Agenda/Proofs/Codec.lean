import Agenda.Proofs.CleanBullet

/-!
Values and what they are written as. A quoted text is one token of one line, whatever is in it.
Flags are read back as they were written, and so are integers and texts, unless they are spelled
with more digits than an integer may have.
-/

namespace Agenda

/-! ### Quoted texts -/

theorem tokens_of_isWord {w : Text} (h : IsWord w) : tokens w = [⟨w, 0⟩] :=
  tokens_join (List.forall_mem_singleton.2 h)

/-- A quoted string that stands for a text, as one token of one line. -/
structure Quotes (w t : Text) : Prop where
  one_line : '\n' ∉ w ∧ '\r' ∉ w ∧ '\t' ∉ w
  isQuoted : isQuotedString w = true
  dequote_eq : dequote w = t
  closed : unclosedQuote? w = none
  tokens_eq : tokens w = [⟨w, 0⟩]

theorem quotes_enquote (t : Text) : Quotes (enquote t) t where
  one_line := ⟨fun hm => (mem_enquote hm).1 rfl, fun hm => (mem_enquote hm).2.1 rfl,
    fun hm => (mem_enquote hm).2.2 rfl⟩
  isQuoted := isQuotedString_enquote t
  dequote_eq := dequote_enquote t
  closed := unclosedQuote?_of_form (.quoted t)
  tokens_eq := tokens_of_isWord (isWord_enquote t)

/-! ### Values -/

namespace Scalar

/-- The value is written as one token, which is read as the same value. -/
def Exact (v : Value) : Prop := ∃ w, write v = .ok w ∧ read w = .ok v ∧ tokens w = [⟨w, 0⟩]

theorem exact_of_read {v : Value} {w : Text} (hwrite : write v = .ok w) (hread : read w = .ok v) :
    Exact v := ⟨w, hwrite, hread, tokens_of_isWord (form_of_write hwrite).1.isWord⟩

theorem exact_flag (b : Bool) : Exact (.flag b) := exact_of_read rfl (read_write_flag rfl)

theorem exact_int_iff {n : Int} :
    Exact (.number (.int n)) ↔ n.natAbs < 10 ^ Number.maxDigits := by
  rw [← Number.isWritable_int_iff]
  constructor
  · rintro ⟨w, hwrite, -⟩
    exact (write_number.1 hwrite).1
  · intro h
    have hwrite := write_number.2 ⟨h, rfl⟩
    exact exact_of_read hwrite (read_write_int hwrite)

theorem exact_text_iff {t : Text} : Exact (.text t) ↔ ¬ Number.IsOversize t := by
  rw [← exists_write_text]
  exact ⟨fun ⟨w, hw, _⟩ => ⟨w, hw⟩, fun ⟨_, hw⟩ => exact_of_read hw (read_write_text hw)⟩

/-- Every text can be quoted. Of flags, integers and texts those are written exactly that are no
integers with more digits than are read. -/
theorem codec_exact :
    (∀ t : Text, Quotes (enquote t) t) ∧ (∀ b : Bool, Exact (.flag b)) ∧
      (∀ n : Int, Exact (.number (.int n)) ↔ n.natAbs < 10 ^ Number.maxDigits) ∧
        ∀ t : Text, Exact (.text t) ↔ ¬ Number.IsOversize t :=
  ⟨quotes_enquote, exact_flag, fun _ => exact_int_iff, fun _ => exact_text_iff⟩

/-- Digits of another script, which are read as a number, are quoted. -/
example : write (.text "٤٢") = .ok "\"٤٢\"" := by rfl

end Scalar

end Agenda
