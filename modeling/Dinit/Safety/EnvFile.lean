import Dinit.Control.EnvFile

namespace Dinit

/-- What a line of an environment file says. -/
inductive EnvCommand
  | clear
  | unset (names : List (List UInt8))
  | import_ (names : List (List UInt8))
  | assign (name value : List UInt8)

def EnvCommand.execute (env : Environment) : EnvCommand → Environment
  | .clear => env.clearNoInherit
  | .unset names => names.foldl Environment.undefineVar env
  | .import_ names => names.foldl Environment.importParentVar env
  | .assign name value => env.setVar (name++61::value)

def Blank (ws : List UInt8) : Prop := ∀ c ∈ ws,isSpace c=true

def NoBlank (w : List UInt8) : Prop := ∀ c ∈ w,isSpace c=false

/-- Words with blanks before each, and perhaps behind the last. -/
inductive Words : List UInt8 → List (List UInt8) → Prop
  | nil {ws} (hws : Blank ws) : Words ws []
  | cons {ws w rest names} (hws : Blank ws) (hne : ws≠[]) (hw : NoBlank w) (hwne : w≠[])
      (h : Words rest names) : Words (ws++(w++rest)) (w::names)

/-- The forms that a line can have, besides those that say nothing. -/
inductive Says : List UInt8 → EnvCommand → Prop
  | clear {ws rest args} (hws : Blank ws) (h : Words rest args) :
      Says (ws++33::([99,108,101,97,114]++rest)) .clear
  | unset {ws rest names} (hws : Blank ws) (h : Words rest names) :
      Says (ws++33::([117,110,115,101,116]++rest)) (.unset names)
  | import_ {ws rest names} (hws : Blank ws) (h : Words rest names) :
      Says (ws++33::([105,109,112,111,114,116]++rest)) (.import_ names)
  | assign {ws c name blanks value} (hws : Blank ws) (hw : NoBlank (c::name)) (heq : 61 ∉ c::name)
      (hc : c≠35 ∧ c≠33) (hblanks : Blank blanks) :
      Says (ws++(c::name++(blanks++61::value))) (.assign (c::name) value)

/-- A line does what it says, or nothing if it says nothing. -/
def Executes (line : List UInt8) (env env' : Environment) : Prop :=
  (∃ cmd,Says line cmd ∧ env'=cmd.execute env) ∨ ((∀ cmd,¬Says line cmd) ∧ env'=env)

/-- The lines are executed one after another. -/
inductive ExecutesAll : List (List UInt8) → Environment → Environment → Prop
  | nil {env} : ExecutesAll [] env env
  | cons {line lines env env1 env2} (h : Executes line env env1) (hs : ExecutesAll lines env1 env2) :
      ExecutesAll (line::lines) env env2

/-- An exclamation mark with nothing behind it. -/
def BareCommand (line : List UInt8) : Prop := ∃ ws,Blank ws ∧ line=ws++[33]

theorem blank_takeWhile (l : List UInt8) : Blank (l.takeWhile isSpace) := fun _ hc =>
  List.mem_takeWhile_imp hc

theorem noBlank_takeWhile (l : List UInt8) : NoBlank (l.takeWhile (!isSpace ·)) := fun c hc => by
  simpa using List.mem_takeWhile_imp hc

theorem dropWhile_blank {ws l : List UInt8} (h : Blank ws) :
    (ws++l).dropWhile isSpace=l.dropWhile isSpace := List.dropWhile_append_of_pos h

/-- Words begin with a blank, if they are not at the end of the line. -/
theorem Words.head {rest : List UInt8} {names : List (List UInt8)} (h : Words rest names) :
    ∀ c t,rest=c::t → isSpace c=true := by
  rintro c t rfl
  generalize hl : c::t=l at h
  cases h with
  | nil hws => exact hws c (hl ▸ List.mem_cons_self)
  | @cons ws w rest names hws hne hw hwne h =>
    cases ws with
    | nil => exact absurd rfl hne
    | cons b ws =>
      obtain rfl : c=b := (List.cons.inj hl).1
      exact hws c List.mem_cons_self

theorem dropWhile_word {w rest : List UInt8} (hw : NoBlank w)
    (hr : ∀ c t,rest=c::t → isSpace c=true) : (w++rest).dropWhile (!isSpace ·)=rest := by
  rw [List.dropWhile_append_of_pos (fun c hc => by simp [hw c hc])]
  cases rest with
  | nil => rfl
  | cons c t => simp [hr c t rfl]

theorem between_append (i j : List UInt8) : between (i++j) j=i := by
  simp [between]

theorem between_dropWhile (p : UInt8 → Bool) (l : List UInt8) :
    between l (l.dropWhile p)=l.takeWhile p := by
  have h := between_append (l.takeWhile p) (l.dropWhile p)
  rwa [List.takeWhile_append_dropWhile] at h

/-- The loop over the arguments finds the words. -/
theorem cmdArgs_eq {rest : List UInt8} {names : List (List UInt8)} (h : Words rest names) :
    cmdArgs rest=names := by
  induction h with
  | nil hws =>
    have hd : List.dropWhile isSpace _=[] := List.dropWhile_eq_nil_iff.mpr hws
    rw [cmdArgs]
    split
    · rfl
    · next hc => cases hd.symm.trans hc
  | @cons ws w rest names hws hne hw hwne h ih =>
    cases w with
    | nil => exact absurd rfl hwne
    | cons c w =>
      have hd : (ws++(c::w++rest)).dropWhile isSpace=c::(w++rest) := by
        rw [dropWhile_blank hws,List.cons_append,List.dropWhile_cons_of_neg]
        simp [hw c List.mem_cons_self]
      rw [cmdArgs]
      split
      · next hc => cases hd.symm.trans hc
      · next c' t hc =>
        obtain ⟨rfl,rfl⟩ := List.cons.inj (hd.symm.trans hc)
        have hword : (c::(w++rest)).dropWhile (!isSpace ·)=rest := dropWhile_word hw h.head
        rw [hword,ih]
        exact congrArg (· :: names) (between_append (c::w) rest)

/-- What is behind a word is words. -/
theorem words_cmdArgs {rest : List UInt8} (hr : ∀ c t,rest=c::t → isSpace c=true) :
    Words rest (cmdArgs rest) := by
  generalize hn : rest.length=n
  induction n using Nat.strong_induction_on generalizing rest with
  | h n ih =>
    have hsplit := List.takeWhile_append_dropWhile (p := isSpace) (l := rest)
    rw [cmdArgs]
    split
    · next hd =>
      rw [hd,List.append_nil] at hsplit
      refine .nil ?_
      rw [← hsplit]
      exact blank_takeWhile rest
    · next c t hd =>
      have hc := head_not_space hd
      rw [between_dropWhile]
      have hw := List.takeWhile_append_dropWhile (p := (!isSpace ·)) (l := c::t)
      have hne : rest.takeWhile isSpace≠[] := by
        intro hnil
        rw [hnil,hd,List.nil_append] at hsplit
        rw [hr c t hsplit.symm] at hc
        cases hc
      have hwne : (c::t).takeWhile (!isSpace ·)≠[] := by simp [hc]
      have hlen := congrArg List.length hsplit
      have hlen2 := congrArg List.length hw
      have hpos := List.length_pos_of_ne_nil hne
      rw [List.length_append] at hlen hlen2
      rw [hd] at hlen
      have hrestws : ∀ b u,(c::t).dropWhile (!isSpace ·)=b::u → isSpace b=true := by
        intro b u hb
        have hnot := List.head_dropWhile_not (!isSpace ·) (l := c::t) (by simp [hb])
        simpa [hb] using hnot
      have hwords := ih _ (by omega) hrestws rfl
      have h := Words.cons (blank_takeWhile rest) hne (noBlank_takeWhile (c::t)) hwne hwords
      have hrest : rest.takeWhile isSpace++c::t=rest := hd ▸ hsplit
      rwa [hw,hrest] at h

theorem between_word (d : UInt8) (l : List UInt8) :
    between (d::l) (l.dropWhile (!isSpace ·))=d::l.takeWhile (!isSpace ·) := by
  have h := between_append (d::l.takeWhile (!isSpace ·)) (l.dropWhile (!isSpace ·))
  rwa [List.cons_append,List.takeWhile_append_dropWhile] at h

/-- A command is run with the words behind it. -/
theorem readEnvLine_command {ws w rest : List UInt8} {names : List (List UInt8)} (hws : Blank ws)
    (hw : NoBlank w) (hne : w≠[]) (h : Words rest names) (env : Environment) :
    readEnvLine (ws++33::(w++rest)) env=some (runCommand w names env) := by
  cases w with
  | nil => exact absurd rfl hne
  | cons d w =>
    have hline : (ws++33::d::(w++rest)).dropWhile isSpace=33::d::(w++rest) := by
      rw [dropWhile_blank hws]
      rfl
    have hword : (w++rest).dropWhile (!isSpace ·)=rest :=
      dropWhile_word (fun c hc => hw c (List.mem_cons_of_mem d hc)) h.head
    have hcmd : between (d::w++rest) rest=d::w := between_append (d::w) rest
    rw [List.cons_append] at hcmd ⊢
    simp only [readEnvLine,hline,hword,hcmd,cmdArgs_eq h]
    rfl

theorem dropWhile_name {name rest : List UInt8} (hw : NoBlank name) (heq : 61 ∉ name)
    (hr : ∀ c t,rest=c::t → isSpace c=true ∨ c=61) :
    (name++rest).dropWhile (fun c => c != 61 && !isSpace c)=rest := by
  rw [List.dropWhile_append_of_pos]
  · cases rest with
    | nil => rfl
    | cons c t =>
      rw [List.dropWhile_cons_of_neg]
      rcases hr c t rfl with h | rfl <;> simp_all
  · intro c hc
    have hne : c≠61 := fun h => heq (h ▸ hc)
    simp [hne,hw c hc]

/-- An assignment is made, whether or not it is the line as it is. -/
theorem readEnvLine_assign {ws name blanks value : List UInt8} {c : UInt8} (hws : Blank ws)
    (hw : NoBlank (c::name)) (heq : 61 ∉ c::name) (hc : c≠35 ∧ c≠33) (hblanks : Blank blanks)
    (env : Environment) :
    readEnvLine (ws++(c::name++(blanks++61::value))) env
      =some (env.setVar (c::name++61::value)) := by
  have hline : (ws++(c::name++(blanks++61::value))).dropWhile isSpace
      =c::(name++(blanks++61::value)) := by
    rw [dropWhile_blank hws,List.cons_append,List.dropWhile_cons_of_neg]
    simp [hw c List.mem_cons_self]
  have hname : (name++(blanks++61::value)).dropWhile (fun c => c != 61 && !isSpace c)
      =blanks++61::value := by
    refine dropWhile_name (fun d hd => hw d (List.mem_cons_of_mem c hd))
      (fun h => heq (List.mem_cons_of_mem c h)) ?_
    intro d t hd
    cases blanks with
    | nil => exact .inr (List.cons.inj hd).1.symm
    | cons b blanks => exact .inl ((List.cons.inj hd).1 ▸ hblanks b List.mem_cons_self)
  have hvalue : (blanks++61::value).dropWhile isSpace=61::value := by
    rw [dropWhile_blank hblanks]
    rfl
  have h61 : c≠61 := fun h => heq (h ▸ List.mem_cons_self)
  have hbetween : between (c::(name++(blanks++61::value))) (blanks++61::value)=c::name :=
    between_append (c::name) (blanks++61::value)
  simp only [readEnvLine,hline,hname,hvalue,hbetween,hc.1,hc.2,h61,if_false,ne_eq,not_true]
  split
  · rfl
  · next hlen =>
    -- Neither spaces before the name nor before the sign.
    simp only [List.length_append,List.length_cons,not_or,Decidable.not_not] at hlen
    obtain rfl : blanks=[] := List.length_eq_zero_iff.mp (by omega)
    obtain rfl : ws=[] := List.length_eq_zero_iff.mp (by simp at hlen; omega)
    rfl

theorem readEnvLine_meaning {line : List UInt8} {cmd : EnvCommand} (h : Says line cmd)
    (env : Environment) : readEnvLine line env=some (cmd.execute env) := by
  cases h with
  | clear hws h => exact readEnvLine_command hws (by simp [NoBlank,isSpace]) (by simp) h env
  | unset hws h => exact readEnvLine_command hws (by simp [NoBlank,isSpace]) (by simp) h env
  | import_ hws h => exact readEnvLine_command hws (by simp [NoBlank,isSpace]) (by simp) h env
  | assign hws hw heq hc hblanks => exact readEnvLine_assign hws hw heq hc hblanks env

theorem readEnvLine_bare {line : List UInt8} (h : BareCommand line) (env : Environment) :
    readEnvLine line env=none := by
  obtain ⟨ws,hws,rfl⟩ := h
  have hline : (ws++[33]).dropWhile isSpace=[33] := by
    rw [dropWhile_blank hws]
    rfl
  simp [readEnvLine,hline]

/-- What the line is after its first blanks. -/
theorem line_eq {line t : List UInt8} {c : UInt8} (h : line.dropWhile isSpace=c::t) :
    line=line.takeWhile isSpace++c::t := by
  rw [← h,List.takeWhile_append_dropWhile]

/-- A command that is known says what it does. -/
theorem says_command {line epos : List UInt8} {d : UInt8}
    (hl : line.dropWhile isSpace=33::d::epos) (env : Environment) :
    (∃ cmd,Says line cmd) ∨ readEnvLine line env=some env := by
  have hline := line_eq hl
  have hws := blank_takeWhile line
  have hsplit : d::epos=d::epos.takeWhile (!isSpace ·)++epos.dropWhile (!isSpace ·) := by
    rw [List.cons_append,List.takeWhile_append_dropWhile]
  have hwords : Words (epos.dropWhile (!isSpace ·)) (cmdArgs (epos.dropWhile (!isSpace ·))) := by
    refine words_cmdArgs fun c t hc => ?_
    have hnot := List.head_dropWhile_not (!isSpace ·) (l := epos) (by simp [hc])
    simpa [hc] using hnot
  rw [hsplit] at hline
  by_cases hclear : d::epos.takeWhile (!isSpace ·)=[99,108,101,97,114]
  · left
    refine ⟨.clear,?_⟩
    rw [hline,hclear]
    exact .clear hws hwords
  by_cases hunset : d::epos.takeWhile (!isSpace ·)=[117,110,115,101,116]
  · left
    refine ⟨.unset (cmdArgs (epos.dropWhile (!isSpace ·))),?_⟩
    rw [hline,hunset]
    exact .unset hws hwords
  by_cases himport : d::epos.takeWhile (!isSpace ·)=[105,109,112,111,114,116]
  · left
    refine ⟨.import_ (cmdArgs (epos.dropWhile (!isSpace ·))),?_⟩
    rw [hline,himport]
    exact .import_ hws hwords
  right
  simp only [readEnvLine,hl,between_word,runCommand,hclear,hunset,himport,if_false]
  rfl

theorem mem_name {name : List UInt8} {c : UInt8}
    (h : c ∈ name.takeWhile fun c => c != 61 && !isSpace c) : c≠61 ∧ isSpace c=false := by
  simpa using List.mem_takeWhile_imp h

/-- A line that is neither empty nor a command is an assignment, or is left. -/
theorem says_assign {line lpos : List UInt8} {c : UInt8} (hl : line.dropWhile isSpace=c::lpos)
    (hc : c≠33) (env : Environment) :
    (∃ cmd,Says line cmd) ∨ readEnvLine line env=some env := by
  by_cases h35 : c=35
  · exact .inr (by simp [readEnvLine,hl,h35])
  by_cases h61 : c=61
  · exact .inr (by simp [readEnvLine,hl,h61])
  generalize hn : lpos.dropWhile (fun c => c != 61 && !isSpace c)=nameEnd
  cases hd : nameEnd.dropWhile isSpace with
  | nil => exact .inr (by simp [readEnvLine,hl,hn,hd,hc,h35,h61])
  | cons d value =>
    by_cases hd61 : d=61
    · subst hd61
      left
      have hlpos := List.takeWhile_append_dropWhile (p := fun c => c != 61 && !isSpace c) (l := lpos)
      have hblanks := List.takeWhile_append_dropWhile (p := isSpace) (l := nameEnd)
      rw [hn] at hlpos
      rw [hd] at hblanks
      have hline := line_eq hl
      rw [← hlpos,← hblanks] at hline
      refine ⟨.assign (c::lpos.takeWhile fun c => c != 61 && !isSpace c) value,?_⟩
      rw [hline]
      refine .assign (blank_takeWhile line) ?_ ?_ ⟨h35,hc⟩ (blank_takeWhile nameEnd)
      · rintro b hb
        cases hb with
        | head => exact head_not_space hl
        | tail _ hb => exact (mem_name hb).2
      · intro hb
        cases hb with
        | head => exact h61 rfl
        | tail _ hb => exact (mem_name hb).1 rfl
    · exact .inr (by simp [readEnvLine,hl,hn,hd,hc,h35,h61,hd61])

theorem executes_unique {line : List UInt8} {env env1 env2 : Environment}
    (h1 : Executes line env env1) (h2 : Executes line env env2) : env1=env2 := by
  rcases h1 with ⟨cmd,hs1,rfl⟩ | ⟨hn1,rfl⟩ <;> rcases h2 with ⟨cmd2,hs2,rfl⟩ | ⟨hn2,rfl⟩
  · exact Option.some.inj ((readEnvLine_meaning hs1 env).symm.trans (readEnvLine_meaning hs2 env))
  · exact absurd hs1 (hn2 cmd)
  · exact absurd hs2 (hn1 cmd2)
  · rfl

/-- Only an exclamation mark with nothing behind it takes an iterator past the end of its line. -/
theorem readEnvLine_executes (line : List UInt8) (env : Environment) :
    BareCommand line ∨ ∃ env',readEnvLine line env=some env' ∧ Executes line env env' := by
  have hread : (∃ cmd,Says line cmd) ∨ readEnvLine line env=some env →
      ∃ env',readEnvLine line env=some env' ∧ Executes line env env' := by
    intro h
    by_cases hs : ∃ cmd,Says line cmd
    · obtain ⟨cmd,hs⟩ := hs
      exact ⟨_,readEnvLine_meaning hs env,.inl ⟨cmd,hs,rfl⟩⟩
    · exact ⟨env,h.resolve_left hs,.inr ⟨not_exists.mp hs,rfl⟩⟩
  cases hl : line.dropWhile isSpace with
  | nil => exact .inr (hread (.inr (by simp [readEnvLine,hl])))
  | cons c lpos =>
    by_cases hc : c=33
    · subst hc
      cases lpos with
      | nil => exact .inl ⟨_,blank_takeWhile line,line_eq hl⟩
      | cons d epos => exact .inr (hread (says_command hl env))
    · exact .inr (hread (says_assign hl hc env))

theorem readEnvLines_executes (lines : List (List UInt8)) (env : Environment) :
    (∃ env',readEnvLines lines env=some env' ∧ ExecutesAll lines env env')
      ↔ ∀ line ∈ lines,¬BareCommand line := by
  induction lines generalizing env with
  | nil => exact ⟨fun _ _ h => absurd h List.not_mem_nil,fun _ => ⟨env,rfl,.nil⟩⟩
  | cons line lines ih =>
    rw [List.forall_mem_cons]
    constructor
    · rintro ⟨env',h,hall⟩
      have hbare : ¬BareCommand line := by
        intro hb
        rw [readEnvLines,readEnvLine_bare hb] at h
        cases h
      obtain ⟨env1,h1,hex⟩ := (readEnvLine_executes line env).resolve_left hbare
      rw [readEnvLines,h1] at h
      cases hall with
      | @cons _ _ _ env2 _ hex2 hs =>
        obtain rfl : env2=env1 := executes_unique hex2 hex
        exact ⟨hbare,(ih env2).mp ⟨env',h,hs⟩⟩
    · rintro ⟨hbare,hrest⟩
      obtain ⟨env1,h1,hex⟩ := (readEnvLine_executes line env).resolve_left hbare
      obtain ⟨env',h2,hall⟩ := (ih env1).mpr hrest
      exact ⟨env',by rw [readEnvLines,h1]; exact h2,.cons hex hall⟩

/-- The iterators stay in their lines and the lines are executed in order as long as no line is an
exclamation mark alone. -/
theorem readEnvFile_iff (content : List UInt8) (env : Environment) :
    (∃ env',readEnvFile content env=some env' ∧ ExecutesAll (fileLines content) env env')
      ↔ ∀ line ∈ fileLines content,¬BareCommand line := readEnvLines_executes _ env

/-- An exclamation mark alone takes the iterator past the end. -/
theorem bare_command_leaves : ¬∃ env',readEnvFile [33,10] {}=some env' ∧
    ExecutesAll (fileLines [33,10]) {} env' := by
  rintro ⟨env',h,-⟩
  exact nomatch h

end Dinit
