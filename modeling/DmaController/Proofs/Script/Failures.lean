import DmaController.Proofs.Script.Words
import DmaController.Script.Run

/-! # Where scripts fail

A script fails to be read at the first line that is neither blank nor a command
(`Script.readLines_eq_error_iff`); the commands of one that is read know the lines they are on
(`Script.onLine_of_readLines`).  A run fails at the first command that fails, and leaves the console
as the commands before it do when they are run alone (`Script.runCommands_eq_error_iff`).  The only
command that fails is the change of a setting (`Console.carryOut_eq_error_iff`). -/

namespace DmaController

/-- A line that is not blank up to its comment, and is no command. -/
def Fails (line : List Char) (e : CommandError) : Prop :=
  (¬ ∀ c ∈ Script.code line, isBlank c = true) ∧ Command.readLine (Script.code line) = .error e

/-- Where something is found in a list: at its head, or further on. -/
theorem exists_split_cons {α : Type} {P : List α → α → Prop} {head : α} {tail : List α} :
    (∃ before x after, head :: tail = before ++ x :: after ∧ P before x) ↔
      P [] head ∨ ∃ before x after, tail = before ++ x :: after ∧ P (head :: before) x := by
  constructor
  · rintro ⟨before, x, after, hsplit, hx⟩
    rcases List.cons_eq_append_iff.mp hsplit with ⟨rfl, hhead⟩ | ⟨before, rfl, htail⟩
    · obtain ⟨rfl, -⟩ := List.cons.inj hhead
      exact .inl hx
    · exact .inr ⟨before, x, after, htail, hx⟩
  · rintro (hx | ⟨before, x, after, rfl, hx⟩)
    · exact ⟨[], head, tail, rfl, hx⟩
    · exact ⟨head :: before, x, after, rfl, hx⟩

/-! ### Reading -/

namespace Script

variable {n : Nat} {line : List Char} {lines : List (List Char)}

theorem readLines_of_fails {e : CommandError} (h : Fails line e) :
    readLines n (line :: lines) = .error ⟨n, e⟩ := by
  rw [readLines_cons, if_neg (Command.wordsIn_eq_nil_iff.not.mpr h.1), h.2]

/-- A line that does not fail is passed over or is a command. -/
theorem readLines_of_passed (n : Nat) (lines : List (List Char)) (h : ∀ e, ¬ Fails line e) :
    readLines n (line :: lines) = readLines (n + 1) lines ∨
    ∃ c, Command.readLine (code line) = .ok c ∧
      readLines n (line :: lines) = (readLines (n + 1) lines).map (⟨n, c⟩ :: ·) := by
  rw [readLines_cons]
  split
  · exact .inl rfl
  · rename_i hwords
    split
    · rename_i e he
      exact absurd ⟨Command.wordsIn_eq_nil_iff.not.mp hwords, he⟩ (h e)
    · rename_i c hc
      exact .inr ⟨c, hc, rfl⟩

/-- The first line that fails ends the reading, and is told by its number. -/
theorem readLines_eq_error_iff {e : Located CommandError} :
    readLines n lines = .error e ↔
      ∃ before line after, lines = before ++ line :: after ∧
        (∀ l ∈ before, ∀ e, ¬ Fails l e) ∧ Fails line e.value ∧ e.line = n + before.length := by
  induction lines generalizing n with
  | nil => simp [readLines]
  | cons line lines ih =>
      -- the first line that fails is this one, or else the first of the others
      rw [exists_split_cons]
      by_cases hline : ∃ e, Fails line e
      · obtain ⟨e₀, he₀⟩ := hline
        rw [readLines_of_fails he₀]
        constructor
        · rintro ⟨⟩
          exact .inl ⟨List.forall_mem_nil _, he₀, rfl⟩
        · rintro (⟨-, hfails, hnumber⟩ | ⟨before, -, -, -, hbefore, -⟩)
          · have hsame : e₀ = e.value := Except.error.inj (he₀.2.symm.trans hfails.2)
            rw [hsame, show n = e.line from hnumber.symm]
          · exact absurd he₀ (hbefore line List.mem_cons_self e₀)
      · have hpassed : ∀ e, ¬ Fails line e := not_exists.mp hline
        have hrest : readLines n (line :: lines) = .error e ↔
            readLines (n + 1) lines = .error e := by
          rcases readLines_of_passed n lines hpassed with heq | ⟨c, -, heq⟩
          · rw [heq]
          · rw [heq, map_eq_error_iff]
        rw [hrest, ih, or_iff_right fun hfirst => hpassed _ hfirst.2.1]
        simp only [List.forall_mem_cons, List.length_cons, Nat.add_right_comm, ← Nat.add_assoc]
        simp [hpassed]

/-- If reading comes to its end, no line fails, and every command is on the line it names. -/
theorem onLine_of_readLines {cs : List (Located Command)} (h : readLines n lines = .ok cs) :
    (∀ line ∈ lines, ∀ e, ¬ Fails line e) ∧
      ∀ c ∈ cs, ∃ line, OnLine n lines c.line line ∧
        Command.readLine (code line) = .ok c.value := by
  induction lines generalizing n cs with
  | nil =>
      cases h
      exact ⟨nofun, nofun⟩
  | cons line lines ih =>
      have hpassed : ∀ e, ¬ Fails line e := by
        intro e he
        rw [readLines_of_fails he] at h
        cases h
      rcases readLines_of_passed n lines hpassed with heq | ⟨c, hc, heq⟩
      · rw [heq] at h
        obtain ⟨hlines, hcommands⟩ := ih h
        refine ⟨List.forall_mem_cons.mpr ⟨hpassed, hlines⟩, fun c hc => ?_⟩
        obtain ⟨l, hon, hread⟩ := hcommands c hc
        exact ⟨l, hon.later line, hread⟩
      · rw [heq] at h
        obtain ⟨cs', hcs', rfl⟩ := map_eq_ok_iff.mp h
        obtain ⟨hlines, hcommands⟩ := ih hcs'
        refine ⟨List.forall_mem_cons.mpr ⟨hpassed, hlines⟩, List.forall_mem_cons.mpr ⟨?_, ?_⟩⟩
        · exact ⟨line, OnLine.first n line lines, hc⟩
        · intro c' hc'
          obtain ⟨l, hon, hread⟩ := hcommands c' hc'
          exact ⟨l, hon.later line, hread⟩

end Script

/-! ### Running -/

/-- Only the change of a setting can fail. -/
theorem Console.carryOut_eq_error_iff {m : Console} {c : Command} {e : SettingError} :
    m.carryOut c = .error e ↔
      ∃ name value, c = .assign name value ∧
        m.rig.controller.settings.assign name value = .error e := by
  cases c with
  | assign name value =>
      rw [carryOut, map_eq_error_iff]
      simp
  | write | poke | runLines | runFrame | print | trace => simp [carryOut]

namespace Script

variable {m m' : Console} {c : Located Command} {cs : List (Located Command)}

theorem runCommands_of_error {e : SettingError} (h : m.carryOut c.value = .error e) :
    runCommands m (c :: cs) = (.error ⟨c.line, e⟩, m) := by
  rw [runCommands, h]

theorem runCommands_of_ok {text : Option String} {m₁ : Console}
    (h : m.carryOut c.value = .ok (text, m₁)) :
    runCommands m (c :: cs) =
      ((runCommands m₁ cs).1.map (text.toList ++ ·), (runCommands m₁ cs).2) := by
  rw [runCommands, h]

/-- The first command that fails ends a run.  The console is then as the commands before it leave
it, and the error is told by the command's line. -/
theorem runCommands_eq_error_iff {e : Located SettingError} :
    runCommands m cs = (.error e, m') ↔
      ∃ before c after, cs = before ++ c :: after ∧
        (∃ out, runCommands m before = (.ok out, m')) ∧
        m'.carryOut c.value = .error e.value ∧ e.line = c.line := by
  induction cs generalizing m with
  | nil => simp [runCommands]
  | cons c cs ih =>
      rw [exists_split_cons]
      cases hc : m.carryOut c.value with
      | error e₀ =>
          rw [runCommands_of_error hc]
          constructor
          · rintro ⟨⟩
            exact .inl ⟨⟨[], rfl⟩, hc, rfl⟩
          · rintro (⟨⟨out, hout⟩, hfails, hline⟩ | ⟨before, -, -, -, ⟨out, hout⟩, -⟩)
            · cases hout
              have hsame : e₀ = e.value := Except.error.inj (hc.symm.trans hfails)
              rw [hsame, ← hline]
            · rw [runCommands_of_error hc] at hout
              cases hout
      | ok step =>
          obtain ⟨text, m₁⟩ := step
          have hfirst : ¬ ((∃ out, runCommands m [] = (.ok out, m')) ∧
              m'.carryOut c.value = .error e.value ∧ e.line = c.line) := by
            rintro ⟨⟨out, hout⟩, hfails, -⟩
            cases hout
            rw [hc] at hfails
            cases hfails
          -- a row of commands behind this one runs from the console that this one leaves
          have hpast : ∀ before, (∃ out, runCommands m (c :: before) = (.ok out, m')) ↔
              ∃ out, runCommands m₁ before = (.ok out, m') := by
            intro before
            constructor
            · rintro ⟨out, hout⟩
              rw [runCommands_of_ok hc] at hout
              obtain ⟨hresult, rfl⟩ := Prod.mk.inj hout
              obtain ⟨out', hout', -⟩ := map_eq_ok_iff.mp hresult
              exact ⟨out', Prod.ext hout' rfl⟩
            · rintro ⟨out, hout⟩
              rw [runCommands_of_ok hc, hout]
              exact ⟨text.toList ++ out, rfl⟩
          have hstep : runCommands m (c :: cs) = (.error e, m') ↔
              runCommands m₁ cs = (.error e, m') := by
            rw [runCommands_of_ok hc]
            simp only [Prod.ext_iff, map_eq_error_iff]
          rw [or_iff_right hfirst, hstep, ih]
          simp only [hpast]

/-- Reading fails just if a line fails, and tells the first such line and what is wrong with it.
A run of what is read fails just at a change of a setting that is refused: the console is left as
the commands before that one leave it when they are run alone, nothing printed is returned, and the
error names the line that the command is on. -/
theorem failures_located (source : String) :
    ((∃ e, read source = .error e) ↔ ∃ line ∈ splitLines source.toList, ∃ e, Fails line e) ∧
    (∀ e, read source = .error e ↔
      ∃ before line after, splitLines source.toList = before ++ line :: after ∧
        (∀ l ∈ before, ∀ e, ¬ Fails l e) ∧ Fails line e.value ∧ e.line = before.length + 1) ∧
    ∀ s, read source = .ok s → ∀ m m' e,
      s.run m = (.error e, m') ↔
        ∃ before c after, s.commands = before ++ c :: after ∧
          (∃ out, run ⟨before⟩ m = (.ok out, m')) ∧
          (∃ name value, c.value = .assign name value ∧
            m'.rig.controller.settings.assign name value = .error e.value) ∧
          e.line = c.line ∧
          ∃ line, OnLine 1 (splitLines source.toList) e.line line ∧
            Command.readLine (code line) = .ok c.value := by
  have hread : ∀ e, read source = .error e ↔ readLines 1 (splitLines source.toList) = .error e :=
    fun e => map_eq_error_iff
  refine ⟨⟨?_, ?_⟩, fun e => ?_, fun s hs m m' e => ?_⟩
  · rintro ⟨e, he⟩
    rw [hread, readLines_eq_error_iff] at he
    obtain ⟨before, line, after, hsplit, -, hfails, -⟩ := he
    exact ⟨line, by simp [hsplit], e.value, hfails⟩
  · rintro ⟨line, hline, e, hfails⟩
    cases hlines : readLines 1 (splitLines source.toList) with
    | error e => exact ⟨e, (hread e).mpr hlines⟩
    | ok cs => exact absurd hfails ((onLine_of_readLines hlines).1 line hline e)
  · rw [hread, readLines_eq_error_iff]
    simp only [Nat.add_comm 1]
  · obtain ⟨cs, hcs, rfl⟩ := map_eq_ok_iff.mp hs
    simp only [run, runCommands_eq_error_iff, Console.carryOut_eq_error_iff]
    constructor
    · rintro ⟨before, c, after, hsplit, hbefore, hrefused, hline⟩
      obtain ⟨line, hon, hcommand⟩ := (onLine_of_readLines hcs).2 c (by simp [hsplit])
      exact ⟨before, c, after, hsplit, hbefore, hrefused, hline, line, hline ▸ hon, hcommand⟩
    · rintro ⟨before, c, after, hsplit, hbefore, hrefused, hline, -⟩
      exact ⟨before, c, after, hsplit, hbefore, hrefused, hline⟩

/-- A setting that there is none of, on the third line: tracing has been turned on by then, and
nothing else has happened to the console. -/
theorem unknownSetting_located :
    ∃ s, read "trace on\n\nset speed 1 # faster" = .ok s ∧ ∀ m : Console,
      s.run m = (.error ⟨3, .unknown "speed"⟩, m.modifyBoard fun b => { b with tracing := true }) :=
  ⟨⟨[⟨1, .trace true⟩, ⟨3, .assign "speed" "1"⟩]⟩, rfl, fun m =>
    ((failures_located "trace on\n\nset speed 1 # faster").2.2 _ rfl m _ _).mpr
      ⟨[⟨1, .trace true⟩], ⟨3, .assign "speed" "1"⟩, [], rfl, ⟨[], rfl⟩, ⟨_, _, rfl, rfl⟩, rfl,
        "set speed 1 # faster".toList, ⟨["trace on".toList, []], [], rfl, rfl⟩, rfl⟩⟩

end Script

end DmaController
