import Mathlib.Data.List.Basic
import Mathlib.Data.List.TakeWhile
import DmaController.Script.Reader

/-! # Lines and their words

How a script comes apart: into lines at the line feeds (`splitLines_append`), a line into its code
and its comment (`Script.code`), the code into words (`Command.wordsIn`), of which
`Command.readLine` reads a command.  A line is *laid out* in the other direction: words with
separators between them, white space around them and a comment behind them.  Whatever the layout,
the words come out again (`LaidOut.wordsIn_code`), and a line has no words just if all of its code
is blank (`Command.wordsIn_eq_nil_iff`). -/

namespace DmaController

/-- A line without its comment. -/
def Script.code (line : List Char) : List Char := line.takeWhile (· ≠ '#')

/-- The words of a line without a comment. -/
def Command.wordsIn (code : List Char) : List (List Char) := splitWords (trimBlanks code)

/-- Reads the command on a line without a comment. -/
def Command.readLine (code : List Char) : Except CommandError Command :=
  match wordsIn code with
  | [] => .error (.unknownCommand "")
  | name :: operands => read name operands

theorem Script.wordsOf_eq (line : List Char) :
    Script.wordsOf line = Command.wordsIn (Script.code line) := rfl

/-- A line without words is passed over; any other is a command or the end of the reading. -/
theorem Script.readLines_cons (n : Nat) (line : List Char) (lines : List (List Char)) :
    Script.readLines n (line :: lines) =
      if Command.wordsIn (Script.code line) = [] then Script.readLines (n + 1) lines
      else
        match Command.readLine (Script.code line) with
        | .error e => .error ⟨n, e⟩
        | .ok c => (Script.readLines (n + 1) lines).map (⟨n, c⟩ :: ·) := by
  rw [Script.readLines, Script.wordsOf_eq, Command.readLine]
  cases Command.wordsIn (Script.code line) with
  | nil => rfl
  | cons name operands => rfl

/-! ### Outcomes -/

theorem map_eq_ok_iff {ε α β : Type} {x : Except ε α} {f : α → β} {b : β} :
    x.map f = .ok b ↔ ∃ a, x = .ok a ∧ f a = b := by
  cases x with
  | error e => exact ⟨nofun, fun ⟨_, h, _⟩ => nomatch h⟩
  | ok a => simp [Except.map]

theorem map_eq_error_iff {ε α β : Type} {x : Except ε α} {f : α → β} {e : ε} :
    x.map f = .error e ↔ x = .error e := by
  cases x <;> simp [Except.map]

theorem mapError_eq_ok_iff {ε ε' α : Type} {x : Except ε α} {f : ε → ε'} {a : α} :
    x.mapError f = .ok a ↔ x = .ok a := by
  cases x <;> simp [Except.mapError]

theorem bind_eq_ok_iff {ε α β : Type} {x : Except ε α} {f : α → Except ε β} {b : β} :
    x >>= f = .ok b ↔ ∃ a, x = .ok a ∧ f a = .ok b := by
  cases x with
  | error e => exact ⟨nofun, fun ⟨_, h, _⟩ => nomatch h⟩
  | ok a => simp [bind, Except.bind]

/-! ### Lines -/

theorem splitLines_append {line : List Char} (hline : '\n' ∉ line) (rest : List Char) :
    splitLines (line ++ '\n' :: rest) = line :: splitLines rest := by
  induction line with
  | nil => rfl
  | cons c cs ih =>
      obtain ⟨hc, hcs⟩ := not_or.mp (List.mem_cons.not.mp hline)
      rw [List.cons_append, splitLines, if_neg (Ne.symm hc), ih hcs]

theorem splitLines_last {line : List Char} (hline : '\n' ∉ line) (hsome : line ≠ []) :
    splitLines line = [line] := by
  induction line with
  | nil => exact absurd rfl hsome
  | cons c cs ih =>
      obtain ⟨hc, hcs⟩ := not_or.mp (List.mem_cons.not.mp hline)
      rw [splitLines, if_neg (Ne.symm hc)]
      cases cs with
      | nil => rfl
      | cons c' cs => rw [ih hcs (List.cons_ne_nil _ _)]

/-- Of lines of which the first has the number `n`, the one with the number `k`. -/
def OnLine (n : Nat) (lines : List (List Char)) (k : Nat) (line : List Char) : Prop :=
  ∃ before after, lines = before ++ line :: after ∧ k = n + before.length

theorem OnLine.first (n : Nat) (line : List Char) (lines : List (List Char)) :
    OnLine n (line :: lines) n line := ⟨[], lines, rfl, rfl⟩

theorem OnLine.later {n k : Nat} {lines : List (List Char)} {line : List Char}
    (h : OnLine (n + 1) lines k line) (front : List Char) : OnLine n (front :: lines) k line := by
  obtain ⟨before, after, rfl, rfl⟩ := h
  exact ⟨front :: before, after, rfl, by rw [List.length_cons]; omega⟩

/-! ### Splitting at separators -/

theorem splitWords_separators {gap : List Char} (hgap : ∀ c ∈ gap, isSeparator c = true)
    (rest : List Char) : splitWords (gap ++ rest) = splitWords rest := by
  induction gap with
  | nil => rfl
  | cons c cs ih =>
      obtain ⟨hc, hcs⟩ := List.forall_mem_cons.mp hgap
      rw [List.cons_append, splitWords, if_pos hc, ih hcs]

/-- A row of characters that do not separate, up to a separator or to the end, is a word. -/
theorem splitWords_word {w rest : List Char} (hsome : w ≠ [])
    (hw : ∀ c ∈ w, isSeparator c = false) (hrest : startsInWord rest = false) :
    splitWords (w ++ rest) = w :: splitWords rest := by
  induction w with
  | nil => exact absurd rfl hsome
  | cons c cs ih =>
      obtain ⟨hc, hcs⟩ := List.forall_mem_cons.mp hw
      rw [List.cons_append, splitWords, if_neg (by simp [hc])]
      cases cs with
      | nil => rw [List.nil_append, if_neg (by simp [hrest])]
      | cons c' cs =>
          have hinside : startsInWord (c' :: cs ++ rest) = true := by
            simp [startsInWord, hcs c' List.mem_cons_self]
          rw [if_pos hinside, ih (List.cons_ne_nil _ _) hcs]

theorem isSeparator_of_splitWords_nil {cs : List Char} (h : splitWords cs = []) :
    ∀ c ∈ cs, isSeparator c = true := by
  fun_induction splitWords cs with
  | case1 => exact fun _ hc => absurd hc List.not_mem_nil
  | case2 c cs hc ih => exact List.forall_mem_cons.mpr ⟨hc, ih h⟩
  | case3 | case4 | case5 => cases h

/-! ### Blanks at the ends -/

theorem mem_dropWhile {p : Char → Bool} {c : Char} {cs : List Char} (hc : c ∈ cs)
    (hp : p c = false) : c ∈ cs.dropWhile p := by
  rw [← List.takeWhile_append_dropWhile (p := p) (l := cs), List.mem_append] at hc
  refine hc.resolve_left fun hfront => ?_
  rw [List.mem_takeWhile_imp hfront] at hp
  cases hp

theorem dropWhile_of_head {p : Char → Bool} {cs : List Char} (h : ∀ c ∈ cs.head?, p c = false) :
    cs.dropWhile p = cs := by
  cases cs with
  | nil => rfl
  | cons c cs => exact List.dropWhile_cons_of_neg (by simp [h c rfl])

theorem mem_trimBlanks {c : Char} {cs : List Char} (hc : c ∈ cs) (hblank : isBlank c = false) :
    c ∈ trimBlanks cs :=
  List.mem_reverse.mpr
    (mem_dropWhile (List.mem_reverse.mpr (mem_dropWhile hc hblank)) hblank)

theorem trimBlanks_of_blank {cs : List Char} (h : ∀ c ∈ cs, isBlank c = true) :
    trimBlanks cs = [] := by
  rw [trimBlanks, List.dropWhile_eq_nil_iff.mpr h]
  rfl

/-- A text that neither starts nor ends with a blank is what is left when the blanks around it are
taken off. -/
theorem trimBlanks_padded {lead body trail : List Char} (hlead : ∀ c ∈ lead, isBlank c = true)
    (htrail : ∀ c ∈ trail, isBlank c = true) (hfirst : ∀ c ∈ body.head?, isBlank c = false)
    (hlast : ∀ c ∈ body.getLast?, isBlank c = false) :
    trimBlanks (lead ++ body ++ trail) = body := by
  cases body with
  | nil =>
      rw [List.append_nil]
      exact trimBlanks_of_blank (List.forall_mem_append.mpr ⟨hlead, htrail⟩)
  | cons c cs =>
      have hfront : (c :: cs ++ trail).dropWhile isBlank = c :: cs ++ trail :=
        dropWhile_of_head hfirst
      have hback : (c :: cs).reverse.dropWhile isBlank = (c :: cs).reverse :=
        dropWhile_of_head (by rwa [List.head?_reverse])
      rw [trimBlanks, List.append_assoc, List.dropWhile_append_of_pos hlead, hfront,
        List.reverse_append,
        List.dropWhile_append_of_pos fun c hc => htrail c (List.mem_reverse.mp hc), hback,
        List.reverse_reverse]

theorem Command.wordsIn_eq_nil_iff {code : List Char} :
    wordsIn code = [] ↔ ∀ c ∈ code, isBlank c = true := by
  constructor
  · intro h c hc
    by_contra hblank
    have hmem := mem_trimBlanks hc (by simpa using hblank)
    exact hblank (isBlank_of_isSeparator (isSeparator_of_splitWords_nil h c hmem))
  · intro h
    rw [wordsIn, trimBlanks_of_blank h]
    rfl

/-! ### Layouts -/

/-- A word that can stand on a line: no blank in it, and nothing that starts a comment. -/
def IsWord (w : List Char) : Prop := w ≠ [] ∧ ∀ c ∈ w, isBlank c = false ∧ c ≠ '#'

instance (w : List Char) : Decidable (IsWord w) :=
  have := List.decidableBAll (fun c => isBlank c = false ∧ c ≠ '#') w
  inferInstanceAs (Decidable (w ≠ [] ∧ ∀ c ∈ w, isBlank c = false ∧ c ≠ '#'))

/-- White space within a line. -/
def IsPad (pad : List Char) : Prop := ∀ c ∈ pad, isBlank c = true ∧ c ≠ '\n'

instance (pad : List Char) : Decidable (IsPad pad) :=
  List.decidableBAll (fun c => isBlank c = true ∧ c ≠ '\n') pad

/-- A comment up to the end of a line, or nothing. -/
def IsComment (comment : List Char) : Prop :=
  comment = [] ∨ ∃ text, comment = '#' :: text ∧ '\n' ∉ text

/-- A text made of words, with one or more separators between any two of them. -/
inductive Spaced : List (List Char) → List Char → Prop
  | none : Spaced [] []
  | last {w : List Char} (hw : IsWord w) : Spaced [w] w
  | next {w v gap rest : List Char} {ws : List (List Char)} (hw : IsWord w) (hsome : gap ≠ [])
      (hgap : ∀ c ∈ gap, isSeparator c = true) (hrest : Spaced (v :: ws) rest) :
      Spaced (w :: v :: ws) (w ++ (gap ++ rest))

/-- A line with the words on it: white space around them, and behind them a comment or none. -/
def LaidOut (words : List (List Char)) (line : List Char) : Prop :=
  ∃ lead body trail comment, line = lead ++ body ++ trail ++ comment ∧
    IsPad lead ∧ Spaced words body ∧ IsPad trail ∧ IsComment comment

theorem IsWord.append {v w : List Char} (hv : IsWord v) (hw : IsWord w) : IsWord (v ++ w) :=
  ⟨List.append_ne_nil_of_left_ne_nil hv.1 w, List.forall_mem_append.mpr ⟨hv.2, hw.2⟩⟩

theorem IsWord.notSeparator {w : List Char} (h : IsWord w) :
    ∀ c ∈ w, isSeparator c = false := by
  intro c hc
  by_contra hsep
  have hblank := isBlank_of_isSeparator (by simpa using hsep)
  rw [(h.2 c hc).1] at hblank
  cases hblank

namespace Spaced

variable {words : List (List Char)} {body : List Char}

theorem space {w v rest : List Char} {ws : List (List Char)} (hw : IsWord w)
    (hrest : Spaced (v :: ws) rest) : Spaced (w :: v :: ws) (w ++ ' ' :: rest) :=
  .next hw (List.cons_ne_nil ' ' []) (List.all_eq_true.mp rfl) hrest

/-- Words can be put on a line with single spaces between them. -/
theorem exists_body {words : List (List Char)} (hwords : ∀ w ∈ words, IsWord w) :
    ∃ body, Spaced words body := by
  induction words with
  | nil => exact ⟨[], .none⟩
  | cons w ws ih =>
      obtain ⟨hw, hws⟩ := List.forall_mem_cons.mp hwords
      obtain ⟨body, hbody⟩ := ih hws
      cases ws with
      | nil => exact ⟨w, .last hw⟩
      | cons v ws => exact ⟨_, space hw hbody⟩

theorem ne_nil {w : List Char} (h : Spaced (w :: words) body) : body ≠ [] := by
  cases h with
  | last hw => exact hw.1
  | next hw => exact fun hnil => hw.1 (List.append_eq_nil_iff.mp hnil).1

theorem first (h : Spaced words body) : ∀ c ∈ body.head?, isBlank c = false := by
  cases h with
  | none => nofun
  | last hw => exact fun c hc => (hw.2 c (List.mem_of_mem_head? hc)).1
  | @next w v gap rest ws hw =>
      obtain ⟨c, cs, rfl⟩ := List.exists_cons_of_ne_nil hw.1
      rintro _ ⟨⟩
      exact (hw.2 c List.mem_cons_self).1

theorem final (h : Spaced words body) : ∀ c ∈ body.getLast?, isBlank c = false := by
  induction h with
  | none => nofun
  | last hw => exact fun c hc => (hw.2 c (List.mem_of_getLast? hc)).1
  | next hw hsome hgap hrest ih =>
      rwa [List.getLast?_append_of_ne_nil _ (List.append_ne_nil_of_right_ne_nil _ hrest.ne_nil),
        List.getLast?_append_of_ne_nil _ hrest.ne_nil]

theorem inLine (h : Spaced words body) : ∀ c ∈ body, c ≠ '\n' ∧ c ≠ '#' := by
  have hword : ∀ {w : List Char}, IsWord w → ∀ c ∈ w, c ≠ '\n' ∧ c ≠ '#' := by
    intro w hw c hc
    refine ⟨?_, (hw.2 c hc).2⟩
    rintro rfl
    exact absurd (hw.2 _ hc).1 (by decide)
  have hsep : ∀ c, isSeparator c = true → c ≠ '\n' ∧ c ≠ '#' := by
    intro c hc
    constructor <;> rintro rfl <;> exact absurd hc (by decide)
  induction h with
  | none => nofun
  | last hw => exact hword hw
  | next hw hsome hgap hrest ih =>
      exact List.forall_mem_append.mpr
        ⟨hword hw, List.forall_mem_append.mpr ⟨fun c hc => hsep c (hgap c hc), ih⟩⟩

theorem splitWords_eq (h : Spaced words body) : splitWords body = words := by
  induction h with
  | none => rfl
  | @last w hw =>
      have hword : splitWords (w ++ []) = [w] := splitWords_word hw.1 hw.notSeparator rfl
      rwa [List.append_nil] at hword
  | @next w v gap rest ws hw hsome hgap hrest ih =>
      obtain ⟨c, cs, rfl⟩ := List.exists_cons_of_ne_nil hsome
      have hstart : startsInWord (c :: cs ++ rest) = false := by
        simp [startsInWord, hgap c List.mem_cons_self]
      rw [splitWords_word hw.1 hw.notSeparator hstart, splitWords_separators hgap, ih]

end Spaced

theorem IsPad.inLine {pad : List Char} (h : IsPad pad) : ∀ c ∈ pad, c ≠ '\n' ∧ c ≠ '#' := by
  intro c hc
  refine ⟨(h c hc).2, ?_⟩
  rintro rfl
  exact absurd (h _ hc).1 (by decide)

/-- The comment behind a text without a mark is what is cut off. -/
theorem Script.code_append {text comment : List Char} (htext : ∀ c ∈ text, c ≠ '#')
    (hcomment : IsComment comment) : Script.code (text ++ comment) = text := by
  rw [Script.code, List.takeWhile_append_of_pos fun c hc => by simpa using htext c hc]
  rcases hcomment with rfl | ⟨rest, rfl, -⟩
  · rw [List.takeWhile_nil, List.append_nil]
  · rw [List.takeWhile_cons_of_neg (by simp), List.append_nil]

namespace LaidOut

variable {words : List (List Char)} {line : List Char}

theorem wordsIn_code (h : LaidOut words line) : Command.wordsIn (Script.code line) = words := by
  obtain ⟨lead, body, trail, comment, rfl, hlead, hbody, htrail, hcomment⟩ := h
  have htext : ∀ c ∈ lead ++ body ++ trail, c ≠ '#' :=
    List.forall_mem_append.mpr
      ⟨List.forall_mem_append.mpr
        ⟨fun c hc => (hlead.inLine c hc).2, fun c hc => (hbody.inLine c hc).2⟩,
        fun c hc => (htrail.inLine c hc).2⟩
  rw [Script.code_append htext hcomment, Command.wordsIn,
    trimBlanks_padded (fun c hc => (hlead c hc).1) (fun c hc => (htrail c hc).1) hbody.first
      hbody.final, hbody.splitWords_eq]

theorem notMem_lineFeed (h : LaidOut words line) : '\n' ∉ line := by
  obtain ⟨lead, body, trail, comment, rfl, hlead, hbody, htrail, hcomment⟩ := h
  intro hmem
  rcases List.mem_append.mp hmem with hmem | hmem
  · rcases List.mem_append.mp hmem with hmem | hmem
    · rcases List.mem_append.mp hmem with hmem | hmem
      · exact (hlead.inLine _ hmem).1 rfl
      · exact (hbody.inLine _ hmem).1 rfl
    · exact (htrail.inLine _ hmem).1 rfl
  · rcases hcomment with rfl | ⟨text, rfl, htext⟩
    · cases hmem
    · rcases List.mem_cons.mp hmem with hmem | hmem
      · cases hmem
      · exact htext hmem

/-- A carriage return behind a line is white space or part of the comment. -/
theorem append_return (h : LaidOut words line) : LaidOut words (line ++ ['\r']) := by
  obtain ⟨lead, body, trail, comment, rfl, hlead, hbody, htrail, hcomment⟩ := h
  rcases hcomment with rfl | ⟨text, rfl, htext⟩
  · refine ⟨lead, body, trail ++ ['\r'], [], ?_, hlead, hbody, ?_, .inl rfl⟩
    · simp only [List.append_assoc, List.append_nil]
    · exact List.forall_mem_append.mpr ⟨htrail, by simp [isBlank, blankRanges]⟩
  · refine ⟨lead, body, trail, '#' :: (text ++ ['\r']), ?_, hlead, hbody, htrail,
      .inr ⟨_, rfl, ?_⟩⟩
    · simp only [List.append_assoc, List.cons_append]
    · simp [htext]

end LaidOut

end DmaController
