import Dinit.Safety.SettingBounds

namespace Dinit

open Framework Framework.Noting

variable {δ σ : Type} (c : LineContext δ σ) (e : FinaliseContext δ) (s : ServiceSettings δ)

def CheckReport.IsLint (r : CheckReport) : Prop := ∃ msg,r=.lint msg

namespace SettingReports

theorem error_not_lint (msg : List UInt8) : ¬(CheckReport.error msg).IsLint := nofun

theorem exception_not_lint (fault : LineFault) : ¬(CheckReport.exception fault).IsLint := nofun

theorem errors_agree (name : List UInt8) (checks : List (Bool × String)) :
    Agrees CheckReport.IsLint (reportAll (throwReports name).reportError checks)
      (reportAll checkReports.reportError checks) := by
  refine .foldlM (fun _ check => ?_) checks ()
  exact .ite (.error (error_not_lint _) _ ()) (.pure ())

theorem lints_agree (name : List UInt8) : Agrees CheckReport.IsLint
    (reportLints e s (throwReports name)) (reportLints e s checkReports) := by
  have h (checks : List (Bool × String)) : Agrees (ε := LineFault) CheckReport.IsLint (.ok ())
      (reportAll (fun msg => note (.lint msg)) checks) := by
    induction checks with
    | nil => exact .pure ()
    | cons check checks ih =>
      have hc : Agrees (ε := LineFault) CheckReport.IsLint (.ok ())
          (if check.1=true then note (.lint (literal check.2)) else pure ()) := by
        split
        · exact .warn ⟨_,rfl⟩
        · exact .pure ()
      exact hc.bind fun _ => ih
  exact h (lintChecks e s)

theorem resolve_agrees (name : List UInt8) (settingName : String) (v : List UInt8) :
    Agrees CheckReport.IsLint (doResolve e s (throwReports name) settingName v)
      (doResolve e s checkReports settingName v) := by
  unfold doResolve
  cases valueVarSubst v (e.varSubst s) e.serviceArg settingName [(0,.ofNat v.length)] with
  | ok p => exact .pure p.1
  | error fault =>
    cases fault with
    | descriptionExc _ excInfo => exact .error (error_not_lint _) _ v
    | lengthError => exact .fail _

theorem finalise_agrees (name : List UInt8) : Agrees CheckReport.IsLint
    (finalise e s (throwReports name)) (finalise e s checkReports) := by
  refine (errors_agree name _).bind fun _ => (lints_agree e s name).bind fun _ =>
    (errors_agree name _).bind fun _ => (resolve_agrees e s name _ _).bind fun _ =>
      (resolve_agrees e s name _ _).bind fun _ => (resolve_agrees e s name _ _).bind fun _ =>
        (resolve_agrees e s name _ _).bind fun _ => (errors_agree name _).bind fun _ => .pure _

theorem line_agrees (left : SettingLine → LineState δ σ → LineState δ σ) (s : LineState δ σ)
    (l : SettingLine) :
    Agrees CheckReport.IsLint (processServiceLine c l s) (checkLine c left s l) := by
  unfold checkLine
  cases processServiceLine c l s with
  | ok t => exact .pure t
  | error fault =>
    cases fault with
    | descriptionExc => exact .error (exception_not_lint _) _ _
    | _ => exact .fail _

end SettingReports

/-- The settings whose value may refer to the argument when the line is processed -/
def SettingId.readsResolved : SettingId → Bool
  | .envFile | .dependsOn | .dependsMs | .waitsFor | .waitsForD | .dependsOnD | .dependsMsD
  | .after | .before | .consumerOf => true
  | _ => false

/-- The line means the same without an argument as with an empty one. -/
def SettingLine.ArgFree (b : BuildOptions) (l : SettingLine) : Prop :=
  ∀ details,findSetting b l.setting=some details → details.settingId.readsResolved=true →
    ∀ v,readValue l=.ok v → ∀ f settingName,
      valueVarSubst v f (some []) settingName [(0,.ofNat v.length)] =
        valueVarSubst v f none settingName [(0,.ofNat v.length)]

namespace SettingReports

variable {c} {l : SettingLine} {fullname : List UInt8}

theorem no_argument (h : 64∉fullname) :
    descriptionName fullname=fullname ∧ serviceArgument fullname=none := by
  have hne : ∀ b∈fullname,decide (b≠64)=true := by
    intro b hb
    simpa using ne_of_mem_of_not_mem hb h
  have hd : fullname.dropWhile (·≠64)=[] := List.dropWhile_eq_nil_iff.mpr hne
  refine ⟨List.takeWhile_eq_self_iff.mpr hne,?_⟩
  unfold serviceArgument
  rw [hd]
  rfl

/-- Without an `@`, the two programs differ in the argument only: none, or an empty one. -/
theorem forCheck_eq (h : 64∉fullname) :
    c.forCheck fullname={c.forLoad fullname with serviceArg := some []} := by
  obtain ⟨hn,ha⟩ := no_argument h
  simp [LineContext.forCheck,LineContext.forLoad,hn,ha]

theorem readValueResolved_argFree (hc : c.serviceArg=none) (hl : ∀ v,readValue l=.ok v →
    ∀ f settingName,valueVarSubst v f (some []) settingName [(0,.ofNat v.length)] =
      valueVarSubst v f none settingName [(0,.ofNat v.length)]) (settingName : String) :
    readValueResolved {c with serviceArg := some []} l settingName=
      readValueResolved c l settingName := by
  unfold readValueResolved
  rw [hc]
  cases hv : readValue l with
  | error fault => rfl
  | ok v =>
    have h := hl v hv c.lookupVar settingName
    simp only [bind,Except.bind]
    rw [h]

theorem process_argFree (hc : c.serviceArg=none) (id : SettingId)
    (hl : id.readsResolved=true → ∀ v,readValue l=.ok v → ∀ f settingName,
      valueVarSubst v f (some []) settingName [(0,.ofNat v.length)] =
        valueVarSubst v f none settingName [(0,.ofNat v.length)]) (s : LineState δ σ) :
    id.process {c with serviceArg := some []} l s=id.process c l s := by
  have hr (h : id.readsResolved=true) := readValueResolved_argFree hc (hl h)
  cases id with
  | envFile => simp only [SettingId.process,setEnvFile,hr rfl]
  | dependsOn | dependsMs | waitsFor => simp only [SettingId.process,addDependency,hr rfl]
  | waitsForD | dependsOnD | dependsMsD => simp only [SettingId.process,addDepDir,hr rfl]
  | after | before | consumerOf => simp only [SettingId.process,setResolved,hr rfl]
  | _ => rfl

theorem line_argFree (hc : c.serviceArg=none) (hl : l.ArgFree c.build) (s : LineState δ σ) :
    processServiceLine {c with serviceArg := some []} l s=processServiceLine c l s := by
  unfold processServiceLine
  dsimp only
  cases hf : findSetting c.build l.setting with
  | none => rfl
  | some details =>
    dsimp only
    split
    · rfl
    · exact process_argFree hc details.settingId (hl details hf) s

theorem lines_argFree (hc : c.serviceArg=none) {ls : List SettingLine}
    (hl : ∀ l∈ls,l.ArgFree c.build) (s : LineState δ σ) :
    processServiceLines {c with serviceArg := some []} ls s=processServiceLines c ls s := by
  induction ls generalizing s with
  | nil => rfl
  | cons l ls ih =>
    unfold processServiceLines at ih ⊢
    rw [List.foldlM_cons,List.foldlM_cons,line_argFree hc (hl l List.mem_cons_self)]
    congr 1
    funext t
    exact ih (fun k hk => hl k (List.mem_cons_of_mem l hk)) t

end SettingReports

open SettingReports

/-- Whatever a line leaves that throws: of a service without an argument, `dinit-check` has nothing
to say about the settings but warnings exactly if they would be loaded, and has the same settings
then, unless a line refers to the argument. -/
theorem checkSettings_agrees (fullname : List UInt8) (hn : 64∉fullname)
    (left : SettingLine → LineState δ σ → LineState δ σ) (ls : List SettingLine)
    (hl : ∀ l∈ls,l.ArgFree c.build) (s t : LineState δ σ) :
    loadSettings (c.forLoad fullname) (e.forLoad fullname) ls s=.ok t ↔
      ∃ reports,checkSettings (c.forCheck fullname) e.forCheck left ls s []=.ok (t,reports) ∧
        ∀ r∈reports,r.IsLint := by
  have ha : serviceArgument fullname=none := (no_argument hn).2
  have he : e.forLoad fullname=e.forCheck := by
    unfold FinaliseContext.forLoad FinaliseContext.forCheck
    rw [ha]
  have hs : processServiceLines (c.forCheck fullname) ls s=
      processServiceLines (c.forLoad fullname) ls s := by
    rw [forCheck_eq hn]
    exact lines_argFree (c := c.forLoad fullname) ha hl s
  have h : Agrees CheckReport.IsLint (loadSettings (c.forLoad fullname) (e.forLoad fullname) ls s)
      (checkSettings (c.forCheck fullname) e.forCheck left ls s) := by
    unfold loadSettings
    rw [← hs,he]
    exact (Agrees.foldlM (fun s l => line_agrees _ left s l) ls s).bind fun s =>
      (finalise_agrees e.forCheck s.1 _).bind fun settings => .pure (settings,s.2)
  constructor
  · intro ht
    obtain ⟨reports,hc,hr⟩ := h.accepted ht []
    exact ⟨reports,hc,hr⟩
  · rintro ⟨reports,hc,hr⟩
    obtain ⟨ws,rfl,ht⟩ := h.clean hc
    exact ht hr

open SettingId (easyContext)

def afterLine (name : String) : SettingLine := ⟨literal "after",.colon,2,3,literal name⟩

/-- An internal service that starts after another one -/
def afterLines : List SettingLine :=
  [⟨literal "type",.assign,1,3,literal "internal"⟩,afterLine "base"]

theorem afterLines_loaded : ∃ y : LineState Unit Unit,
    loadSettings (easyContext.forLoad (literal "boot")) (easyFinalise.forLoad (literal "boot"))
      afterLines ({autoRestart := .never},())=.ok y := by
  let c : LineContext Unit Unit := easyContext.forLoad (literal "boot")
  let x : LineState Unit Unit := ({autoRestart := .never},())
  let y : LineState Unit Unit := ({x.1 with serviceType := .internal},())
  have h1 : processServiceLine c ⟨literal "type",.assign,1,3,literal "internal"⟩ x=.ok y := by
    have hf : findSetting ⟨true,true,true,true,true,true⟩ (literal "type")=
      some ⟨"type",.type,false,true,false⟩ := by decide
    rw [processServiceLine_eq hf (by decide)]
    simp only [SettingId.process,setChoice]
    exact (SettingId.setParsed_word (by decide) _ _ _).trans rfl
  have h2 : processServiceLine c (afterLine "base") y=
      .ok ({y.1 with afterSvcs := [literal "base"]},()) := by
    have hf : findSetting ⟨true,true,true,true,true,true⟩ (literal "after")=
      some ⟨"after",.after,true,false,false⟩ := by decide
    rw [processServiceLine_eq hf (by decide)]
    simp only [SettingId.process]
    exact SettingId.setResolved_word (by decide) _ (by decide) _ _ _
  have h : processServiceLines c afterLines x=.ok ({y.1 with afterSvcs := [literal "base"]},()) :=
    (settingFootprint c).run_cons_ok.mpr ⟨y,h1,(settingFootprint c).run_cons_ok.mpr ⟨_,h2,rfl⟩⟩
  unfold loadSettings
  rw [h]
  exact ⟨_,rfl⟩

/-- `dinit-check` finds nothing wrong with it. -/
theorem checkSettings_agrees_after : ∃ (y : LineState Unit Unit) (reports : List CheckReport),
    checkSettings (easyContext.forCheck (literal "boot")) easyFinalise.forCheck (fun _ s => s)
      afterLines ({autoRestart := .never},()) []=.ok (y,reports) ∧ ∀ r∈reports,r.IsLint := by
  obtain ⟨y,hy⟩ := afterLines_loaded
  refine ⟨y,(checkSettings_agrees easyContext easyFinalise (literal "boot") (by decide) (fun _ s => s)
    afterLines ?_ _ y).mp hy⟩
  intro l hl details hf hr v hv f settingName
  rcases List.mem_cons.mp hl with rfl | hl
  · have h : findSetting ⟨true,true,true,true,true,true⟩ (literal "type")=
        some ⟨"type",.type,false,true,false⟩ := by decide
    obtain rfl := Option.some.inj (h.symm.trans hf)
    cases hr
  · obtain rfl := List.mem_singleton.mp hl
    obtain rfl := Except.ok.inj ((readValue_word (by decide) ..).symm.trans hv)
    have hd : findDollar (literal "base") 0=none := by decide
    simp [valueVarSubst,hd]

end Dinit
