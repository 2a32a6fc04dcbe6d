/-! # Fragments

Whether a text holds another one as a consecutive part. -/

namespace MutationLab.Text

/-- Whether `fragment` stands somewhere in `text`. -/
def holdsList (fragment : List Char) : (text : List Char) → Bool
  | [] => fragment.isEmpty
  | c :: cs => fragment.isPrefixOf (c :: cs) || holdsList fragment cs

/-- Whether the fragment stands somewhere in the text. -/
def holds (text fragment : String) : Bool := holdsList fragment.toList text.toList

theorem holdsList_iff (fragment text : List Char) :
    holdsList fragment text = true ↔ fragment <:+: text := by
  induction text with
  | nil => cases fragment <;> simp [holdsList]
  | cons c cs ih => simp [holdsList, ih, List.infix_cons_iff, List.isPrefixOf_iff_prefix]

end MutationLab.Text
