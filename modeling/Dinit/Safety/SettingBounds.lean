import Dinit.Safety.SettingLines
import Dinit.Settings.Finalise

namespace Dinit

open Framework

theorem ok_of_bind {ε α β : Type} {a : Except ε α} {f : α → Except ε β} {v : β}
    (h : a >>= f=.ok v) : ∃ u,a=.ok u ∧ f u=.ok v := by
  cases a with
  | error e => cases h
  | ok u => exact ⟨u,rfl,h⟩

/-- A command and the places of its parts: they are inside of it and one after another, and there is
one if there is anything. -/
structure CommandOk (command : List UInt8) (offsets : List (UInt32 × UInt32)) : Prop where
  nonempty : command≠[] → offsets≠[]
  inside : command.length<2^32 → ∀ p∈offsets,p.1≤ p.2 ∧ p.2.toNat≤ command.length
  ordered : command.length<2^32 → offsets.Pairwise fun p q => p.2≤ q.1

/-- A value that is being read behind the parts `ps`, with the same for what is there already. Between
two parts, `bound` is the end of it, and in a part it is where that begins. -/
structure CommandRead (s : SettingValue) (ps : List (UInt32 × UInt32)) : Prop where
  parts : s.partPositions=some ps
  nonempty : s.newPart=true → s.settingVal≠[] → ps≠[]
  start : s.newPart=false → s.settingVal.length<2^32 → s.partStart.toNat≤ s.settingVal.length
  inside : s.settingVal.length<2^32 → ∀ p∈ps,p.1≤ p.2 ∧
    p.2.toNat≤ if s.newPart then s.settingVal.length else s.partStart.toNat
  ordered : s.settingVal.length<2^32 → ps.Pairwise fun p q => p.2≤ q.1

namespace CommandRead

variable {s t : SettingValue} {ps : List (UInt32 × UInt32)}

theorem beginPart (h : CommandRead s ps) : CommandRead s.beginPart ps ∧ s.beginPart.newPart=false := by
  cases hn : s.newPart with
  | false =>
    have he : s.beginPart=s := by simp [SettingValue.beginPart,hn]
    rw [he]
    exact ⟨h,hn⟩
  | true =>
    have he : s.beginPart={s with partStart := .ofNat s.settingVal.length,newPart := false} := by
      simp [SettingValue.beginPart,hn]
    rw [he]
    have hto (hl : s.settingVal.length<2^32) :
        (UInt32.ofNat s.settingVal.length).toNat=s.settingVal.length :=
      UInt32.toNat_ofNat_of_lt' hl
    refine ⟨⟨h.parts,fun hn => Bool.noConfusion hn,fun _ hl => (hto hl).le,fun hl => ?_,
      h.ordered⟩,rfl⟩
    have hi := h.inside hl
    simpa [hn,hto hl] using hi

theorem append (h : CommandRead s ps) (hs : s.newPart=false ∨ ps≠[]) (c : UInt8) :
    CommandRead (s.append c) ps := by
  have hl (h : (s.append c).settingVal.length<2^32) : s.settingVal.length<2^32 ∧
      s.settingVal.length≤ (s.append c).settingVal.length := by
    simp only [SettingValue.append,List.length_append,List.length_singleton] at h ⊢
    omega
  refine ⟨h.parts,fun hn _ => ?_,fun hn hlen => (h.start hn (hl hlen).1).trans (hl hlen).2,
    fun hlen p hp => ?_,fun hlen => h.ordered (hl hlen).1⟩
  · exact hs.resolve_left fun hf => Bool.false_ne_true (hf.symm.trans hn)
  · have hi := h.inside (hl hlen).1 p hp
    refine ⟨hi.1,hi.2.trans ?_⟩
    cases hn : s.newPart <;> simp [SettingValue.append,hn]

theorem endPart (h : CommandRead s ps) : ∃ qs,CommandRead s.endPart qs ∧ s.endPart.newPart=true ∧
    (s.newPart=false ∨ ps≠[] → qs≠[]) := by
  cases hn : s.newPart with
  | true =>
    have he : s.endPart=s := by simp [SettingValue.endPart,hn]
    rw [he]
    exact ⟨ps,h,hn,fun h => h.resolve_left (by simp)⟩
  | false =>
    have he : s.endPart={s with
        partPositions := some (ps++[(s.partStart,.ofNat s.settingVal.length)])
        newPart := true} := by simp [SettingValue.endPart,hn,h.parts]
    rw [he]
    have hto (hl : s.settingVal.length<2^32) :
        (UInt32.ofNat s.settingVal.length).toNat=s.settingVal.length :=
      UInt32.toNat_ofNat_of_lt' hl
    have hi (hl : s.settingVal.length<2^32) :
        ∀ p∈ps,p.1≤ p.2 ∧ p.2.toNat≤ s.partStart.toNat := by
      simpa [hn] using h.inside hl
    refine ⟨_,⟨rfl,by simp,fun hn => Bool.noConfusion hn,fun hl p hp => ?_,fun hl => ?_⟩,rfl,
      by simp⟩
    · have hs := h.start hn hl
      obtain hp | hp := List.mem_append.mp hp
      · exact ⟨(hi hl p hp).1,((hi hl p hp).2.trans hs)⟩
      · obtain rfl := List.mem_singleton.mp hp
        refine ⟨UInt32.le_iff_toNat_le.mpr ?_,(hto hl).le⟩
        rw [hto hl]
        exact hs
    · refine List.pairwise_append.mpr ⟨h.ordered hl,List.pairwise_singleton _ _,?_⟩
      intro p hp q hq
      obtain rfl := List.mem_singleton.mp hq
      exact UInt32.le_iff_toNat_le.mpr (hi hl p hp).2

theorem atLine (h : CommandRead s ps) (lineNum : UInt32) :
    CommandRead {s with lineNum} ps :=
  ⟨h.parts,h.nonempty,h.start,h.inside,h.ordered⟩

theorem readQuoted {i j : List UInt8} (h : CommandRead s ps) (hs : s.newPart=false)
    (hr : readQuoted s i=.ok (t,j)) : CommandRead t ps ∧ t.newPart=false := by
  fun_induction Dinit.readQuoted s i with
  | case1 s => cases hr
  | case2 s i => cases hr; exact ⟨h,hs⟩
  | case3 s hd => cases hr
  | case4 s d i hd ih => exact ih (h.append (.inl hs) d) hs hr
  | case5 s c i h1 h2 ih => exact ih (h.append (.inl hs) c) hs hr

/-- When all is read, a part has ended, or there was nothing. -/
theorem readParts {i : List UInt8} {v : SettingValue} (h : CommandRead s ps)
    (hi : s.newPart=false ∨ ps≠[] ∨ isSpace (i.headD 0)=false) (hr : readParts s i=.ok v) :
    ∃ qs,v.partPositions=some qs ∧ CommandOk v.settingVal qs := by
  have plain {s : SettingValue} {ps : List (UInt32 × UInt32)} (h : CommandRead s ps) (c : UInt8) :
      CommandRead (s.beginPart.append c) ps ∧ (s.beginPart.append c).newPart=false :=
    ⟨h.beginPart.1.append (.inl h.beginPart.2) c,h.beginPart.2⟩
  have ended {s : SettingValue} {qs : List (UInt32 × UInt32)} (h : CommandRead s qs)
      (hn : s.newPart=true) : CommandOk s.settingVal qs :=
    ⟨h.nonempty hn,fun hl => by simpa [hn] using h.inside hl,h.ordered⟩
  fun_induction Dinit.readParts s i generalizing ps with
  | case1 s =>
    cases hr
    obtain ⟨qs,hq,hn,-⟩ := h.endPart
    exact ⟨qs,hq.parts,ended hq hn⟩
  | case2 => cases hr
  | case3 s i t j hq ih =>
    obtain ⟨ht,hn⟩ := h.beginPart.1.readQuoted h.beginPart.2 hq
    exact ih ht (.inl hn) hr
  | case4 => cases hr
  | case5 s d i hc ih => exact ih (plain h d).1 (.inl (plain h d).2) hr
  | case6 s c i h1 h2 hs lines hk =>
    cases hr
    obtain ⟨qs,hq,hn,-⟩ := h.endPart
    exact ⟨qs,hq.parts,ended (hq.atLine lines) hn⟩
  | case7 s c i h1 h2 hs lines d j hk ih =>
    obtain ⟨qs,hq,hn,hne⟩ := h.endPart
    have hne := hne (hi.imp_right fun h => h.resolve_right (by simp [hs]))
    exact ih ((hq.atLine lines).append (.inr hne) 32) (.inr (.inl hne)) hr
  | case8 => cases hr
  | case9 s c i h1 h2 h3 h4 ih => exact ih (plain h c).1 (.inl (plain h c).2) hr

end CommandRead

theorem skipWsLn_head (count : UInt32) (i : List UInt8) :
    isSpace ((skipWsLn count i).2.headD 0)=false := by
  induction i generalizing count with
  | nil => rfl
  | cons c i ih =>
    cases hc : isSpace c with
    | true => simpa [skipWsLn,hc] using ih _
    | false => simp [skipWsLn,hc]

/-- A command stays so when it is set, and when more is added to it. -/
theorem readSettingValue_command {v : List UInt8} {ps : List (UInt32 × UInt32)} {op : SettingOp}
    {n : UInt32} {i : List UInt8} {t : SettingValue} (hv : CommandOk v ps)
    (h : readSettingValue v op n i (some ps)=.ok t) :
    ∃ qs,t.partPositions=some qs ∧ CommandOk t.settingVal qs := by
  have hi {qs : List (UInt32 × UInt32)} {s : SettingValue} (hs : CommandRead s qs)
      (h : readParts s (skipWsLn n i).2=.ok t) :
      ∃ qs,t.partPositions=some qs ∧ CommandOk t.settingVal qs :=
    hs.readParts (.inr (.inr (skipWsLn_head n i))) h
  unfold readSettingValue at h
  dsimp only at h
  by_cases hop : op=.plusAssign
  · rw [if_pos hop] at h
    refine hi ⟨rfl,fun _ hne => ?_,by simp,fun hl p hp => ?_,fun hl => ?_⟩ h
    · exact hv.nonempty fun hs => hne (if_pos hs)
    · by_cases hs : v=[]
      · subst hs
        exact hv.inside (by simp) p hp
      · simp only [if_neg hs,List.length_append,List.length_singleton] at hl ⊢
        have hp := hv.inside (by omega) p hp
        exact ⟨hp.1,hp.2.trans (by simp)⟩
    · by_cases hs : v=[]
      · subst hs
        exact hv.ordered (by simp)
      · simp only [if_neg hs,List.length_append,List.length_singleton] at hl
        exact hv.ordered (by omega)
  · rw [if_neg hop] at h
    exact hi ⟨rfl,fun _ hne => absurd rfl hne,by simp,by simp,fun _ => .nil⟩ h

theorem SettingId.readCommand_ok {l : SettingLine} {v w : List UInt8 × List (UInt32 × UInt32)}
    (hv : CommandOk v.1 v.2) (h : readCommand l v=.ok w) : CommandOk w.1 w.2 := by
  unfold readCommand at h
  cases hr : readSettingValue v.1 l.settingOp l.inputPos l.i (some v.2) with
  | error e => simp [hr,Except.mapError,Except.map] at h
  | ok t =>
    obtain ⟨qs,hq,ht⟩ := readSettingValue_command hv hr
    obtain rfl : (t.settingVal,qs)=w := by simpa [hr,hq,Except.mapError,Except.map] using h
    exact ht

def Within (lo hi : Int) (v : Option Int) : Prop := ∀ n∈v,lo≤ n ∧ n≤ hi

def AtMost (m n : Nat) : Prop := n≤ m

/-- The nanoseconds are less than a second. -/
def TimeOk (t : Nat × Nat) : Prop := t.2<10^9

/-- A service that runs on the console starts on it, and one that shares it does not have it. -/
structure FlagsOk (f : ServiceFlags) : Prop where
  runs : f.runsOnConsole=true → f.startsOnConsole=true
  shares : f.sharesConsole=true → f.startsOnConsole=false

/-- One entry at most for a resource, of those that there are settings for -/
structure RlimitsOk (limits : List ServiceRlimits) : Prop where
  once : (limits.map (·.resourceId)).Nodup
  known : ∀ r∈limits,r.resourceId∈[rlimitNofileId,rlimitCoreId,rlimitDataId,rlimitAsId]

/-- No value, the default, or that of a class with a level from 0 to 7 -/
def IoprioOk (v : Int) : Prop :=
  v=-1 ∨ v=0 ∨ v=ioprioPrioValue 3 0 ∨ ∃ n≤7,v=ioprioPrioValue 1 n ∨ v=ioprioPrioValue 2 n

def SignalOk (n : Nat) : Prop := n∈signalToIntMap.map Prod.snd

def LengthIs (n : Nat) (v : List UInt8) : Prop := v.length=n

section
variable {δ σ : Type} (c : LineContext δ σ)

/-- There is a directory for a name that is relative to it. -/
def EnvFileOk (v : List UInt8 × Int) : Prop :=
  v.1=[] ∨ v.1.head?=some 47 ∨ ∃ fd,c.dup fd=some v.2

def CapabilitiesOk (v : Option (List UInt8)) : Prop :=
  ∀ text∈v,text≠[] ∧ c.capIabFromText (cString text)=.ok true

def ReadinessOk (v : Int × List UInt8) : Prop := -1≤ v.1 ∧ v.1≤ intMax

/-- It is not the description that is read, which is the service itself if that has no argument. -/
def OtherDescription (v : List UInt8) : Prop := v=[] ∨ v≠c.name

/-- What holds of the part of a group, whatever lines have been processed -/
def SettingId.Ok : (g : SettingId) → g.View δ σ → Prop
  | .command,v | .stopCommand,v => CommandOk v.1 v.2
  | .envFile,v => EnvFileOk c v
  | .capabilities,v => CapabilitiesOk c v
  | .consumerOf,v => OtherDescription c v
  | .logBufferSize,v => AtMost (unsignedMax/2) v
  | .restartLimitCount,v => AtMost intMax v
  | .securebits,v => AtMost 63 v
  | .options,v => FlagsOk v
  | .termSignal,v => SignalOk v
  | .restartLimitInterval,v | .restartDelay,v | .stopTimeout,v | .startTimeout,v => TimeOk v
  | .readyNotification,v => ReadinessOk v
  | .inittabId,v => LengthIs 4 v
  | .inittabLine,v => LengthIs 32 v
  | .nice,v => Within (-1073741824) 1073741823 v
  | .oomScoreAdj,v => Within (-1000) 1000 v
  | .ioprio,v => IoprioOk v
  | .rlimitNofile,v => RlimitsOk v
  | _,_ => True

end

section
variable {servicename param : List UInt8} {inputPos : UInt32}

theorem parseUnumParam_le {max v : Nat} (h : parseUnumParam servicename inputPos param max=.ok v) :
    v≤ max := by
  unfold parseUnumParam at h
  cases hs : stoull param with
  | error e => simp [hs] at h
  | ok r =>
    by_cases hv : max< r.1 ∨ r.2≠param.length
    · simp [hs,hv] at h
    · obtain rfl : r.1=v := by simpa [hs,hv] using h
      omega

theorem parseSnumParam_within {lo hi v : Int}
    (h : parseSnumParam servicename inputPos param lo hi=.ok v) : lo≤ v ∧ v≤ hi := by
  unfold parseSnumParam at h
  cases hs : stoll param with
  | error e => simp [hs] at h
  | ok r =>
    by_cases hv : r.1<lo ∨ hi< r.1 ∨ r.2≠param.length
    · simp [hs,hv] at h
    · obtain rfl : r.1=v := by simpa [hs,hv] using h
      omega

theorem parseFraction_lt {paramName : String} {l : List UInt8} {n k v : Nat} (hk : n+10*k≤10^9)
    (hn : n<10^9) (h : parseFraction paramName l n k=.ok v) : v<10^9 := by
  induction l generalizing n k with
  | nil =>
    obtain rfl : n=v := by simpa [parseFraction] using h
    exact hn
  | cons c l ih =>
    unfold parseFraction at h
    by_cases hc : c<48 ∨ 57<c
    · simp [hc] at h
    · have hd : c.toNat-48≤9 := by
        have h57 := UInt8.le_iff_toNat_le.mp (UInt8.not_lt.mp fun h => hc (.inr h))
        have h57 : c.toNat≤57 := h57
        omega
      have hle : (c.toNat-48)*k≤9*k := Nat.mul_le_mul_right k hd
      have hdiv := Nat.div_mul_le_self k 10
      have hlt : n+(c.toNat-48)*k<10^9 := by omega
      have h1 : checked longMax ((c.toNat-48)*k)=.ok ((c.toNat-48)*k) :=
        if_pos (by unfold longMax; omega)
      have h2 : checked longMax (n+(c.toNat-48)*k)=.ok (n+(c.toNat-48)*k) :=
        if_pos (by unfold longMax; omega)
      simp only [hc,if_false,h1,h2,bind,Except.bind] at h
      exact ih (by omega) hlt h

theorem parseTimespec_ok {paramName : String} {t : Nat × Nat}
    (h : parseTimespec paramName param=.ok t) : TimeOk t := by
  obtain ⟨r,-,h⟩ := ok_of_bind h
  obtain ⟨insec,hf,h⟩ := ok_of_bind h
  cases h
  exact parseFraction_lt (by decide) (by decide) hf

end

theorem signalNameToNumber_ok {signame : List UInt8} {n : Nat}
    (h : signalNameToNumber signame=some n) : SignalOk n := by
  obtain ⟨p,hp,rfl⟩ := Option.map_eq_some_iff.mp h
  exact List.mem_map_of_mem (List.mem_of_find?_eq_some hp)

theorem foldWords_keeps {α : Type} {P : α → Prop} {word : α → List UInt8 → Option α}
    {unknown : List UInt8 → LineFault} (hw : ∀ {a w},P a → ∀ b,word a w=some b → P b)
    {ws : List (List UInt8)} {a b : α} (h : foldWords word unknown a ws=.ok b) (ha : P a) : P b := by
  induction ws generalizing a with
  | nil =>
    obtain rfl : a=b := by simpa [foldWords] using h
    exact ha
  | cons w ws ih =>
    cases hs : word a w with
    | none => simp [foldWords,hs] at h
    | some a' => exact ih (by simpa [foldWords,hs] using h) (hw ha a' hs)

theorem ite_some {γ : Type} {Q : γ → Prop} {p : Prop} [Decidable p] {a : γ} {b : Option γ} (ha : Q a)
    (hb : ∀ g,b=some g → Q g) : ∀ g,(if p then some a else b)=some g → Q g := by
  intro g h
  split at h
  · exact Option.some.inj h ▸ ha
  · exact hb g h

theorem option_ok {b : BuildOptions} {f : ServiceFlags} {s : List UInt8} (hf : FlagsOk f) :
    ∀ g,f.option b s=some g → FlagsOk g := by
  have same {g : ServiceFlags} (hr : g.runsOnConsole=f.runsOnConsole)
      (hs : g.startsOnConsole=f.startsOnConsole) (hh : g.sharesConsole=f.sharesConsole) :
      FlagsOk g := ⟨by rw [hr,hs]; exact hf.runs,by rw [hh,hs]; exact hf.shares⟩
  unfold ServiceFlags.option
  refine ite_some (same rfl rfl rfl) (ite_some (same rfl rfl rfl) ?_)
  refine ite_some ⟨fun _ => rfl,nofun⟩ (ite_some ⟨fun _ => rfl,nofun⟩ ?_)
  refine ite_some ⟨nofun,fun _ => rfl⟩ ?_
  refine ite_some (same rfl rfl rfl) (ite_some (same rfl rfl rfl) (ite_some (same rfl rfl rfl) ?_))
  refine ite_some (same rfl rfl rfl) (ite_some (same rfl rfl rfl) (ite_some (same rfl rfl rfl) ?_))
  exact ite_some (same rfl rfl rfl) (ite_some (same rfl rfl rfl) nofun)

theorem securebit_le {n : Nat} {s : List UInt8} (hn : AtMost 63 n) :
    ∀ m,securebit n s=some m → AtMost 63 m := by
  have hor {k : Nat} (hk : k<2^6) : AtMost 63 (n|||k) :=
    Nat.le_of_lt_succ (Nat.or_lt_two_pow (Nat.lt_succ_of_le hn) hk)
  unfold securebit
  refine ite_some (hor (by decide)) (ite_some (hor (by decide)) (ite_some (hor (by decide)) ?_))
  exact ite_some (hor (by decide)) (ite_some (hor (by decide)) (ite_some (hor (by decide)) nofun))

theorem parseRlimit_resourceId {line : List UInt8} {paramName : String} {r t : ServiceRlimits}
    (h : parseRlimit line paramName r=.ok t) : t.resourceId=r.resourceId := by
  have hard {index : List UInt8} {r t : ServiceRlimits}
      (h : parseHardLimit index paramName r=.ok t) : t.resourceId=r.resourceId := by
    unfold parseHardLimit at h
    split at h
    · cases h; rfl
    · dsimp only at h
      split_ifs at h <;> cases h <;> rfl
  have soft {index : List UInt8} {r t : ServiceRlimits}
      (h : parseAfterSoft index paramName r=.ok t) : t.resourceId=r.resourceId := by
    unfold parseAfterSoft at h
    split_ifs at h
    · cases h; rfl
    · exact hard h
  unfold parseRlimit at h
  dsimp only at h
  split_ifs at h
  · exact (hard h).trans rfl
  · exact (soft h).trans rfl
  · exact (soft h).trans rfl

/-- An entry is changed or added, and the others stay. -/
theorem updateRlimits_ids {f : ServiceRlimits → Except LineFault ServiceRlimits} {resourceId : Int}
    (hf : ∀ {r t},f r=.ok t → t.resourceId=r.resourceId) {limits limits' : List ServiceRlimits}
    (h : updateRlimits f resourceId limits=.ok limits') :
    limits'.map (·.resourceId)=limits.map (·.resourceId) ∧ resourceId∈limits.map (·.resourceId) ∨
    limits'.map (·.resourceId)=limits.map (·.resourceId)++[resourceId] ∧
      resourceId∉limits.map (·.resourceId) := by
  induction limits generalizing limits' with
  | nil =>
    obtain ⟨r,hr,h⟩ := ok_of_bind h
    cases h
    exact .inr ⟨by simp [hf hr],by simp⟩
  | cons r limits ih =>
    unfold updateRlimits at h
    split_ifs at h with he
    · obtain ⟨t,hr,h⟩ := ok_of_bind h
      cases h
      exact .inl ⟨by simp [hf hr],by simp [he]⟩
    · obtain ⟨rest,hu,h⟩ := ok_of_bind h
      cases h
      obtain ⟨hm,hi⟩ | ⟨hm,hi⟩ := ih hu
      · exact .inl ⟨by simp [hm],List.mem_cons_of_mem _ hi⟩
      · exact .inr ⟨by simp [hm],by simpa [Ne.symm he] using hi⟩

theorem RlimitsOk.update {f : ServiceRlimits → Except LineFault ServiceRlimits} {resourceId : Int}
    {limits limits' : List ServiceRlimits} (hl : RlimitsOk limits)
    (hr : resourceId∈[rlimitNofileId,rlimitCoreId,rlimitDataId,rlimitAsId])
    (hf : ∀ {r t},f r=.ok t → t.resourceId=r.resourceId)
    (h : updateRlimits f resourceId limits=.ok limits') : RlimitsOk limits' := by
  have known {ids : List Int} (h : ∀ i∈ids,i∈[rlimitNofileId,rlimitCoreId,rlimitDataId,rlimitAsId])
      (he : limits'.map (·.resourceId)=ids) : ∀ r∈limits',
        r.resourceId∈[rlimitNofileId,rlimitCoreId,rlimitDataId,rlimitAsId] := fun r hm =>
    h r.resourceId (he ▸ List.mem_map_of_mem hm)
  have hk : ∀ i∈limits.map (·.resourceId),
      i∈[rlimitNofileId,rlimitCoreId,rlimitDataId,rlimitAsId] := by
    intro i hi
    obtain ⟨r,hm,rfl⟩ := List.mem_map.mp hi
    exact hl.known r hm
  obtain ⟨he,-⟩ | ⟨he,hn⟩ := updateRlimits_ids hf h
  · exact ⟨he ▸ hl.once,known hk he⟩
  · refine ⟨he ▸ List.nodup_append.mpr ⟨hl.once,List.nodup_singleton _,?_⟩,known ?_ he⟩
    · intro i hi j hj hij
      obtain rfl := List.mem_singleton.mp hj
      exact hn (hij ▸ hi)
    · intro i hi
      exact (List.mem_append.mp hi).elim (hk i) fun h => List.mem_singleton.mp h ▸ hr

section
variable {δ σ : Type} {c : LineContext δ σ} {l : SettingLine} {x y : LineState δ σ} {α : Type}

theorem setParsed_ok {parse : List UInt8 → Except LineFault α}
    {set : α → ServiceSettings δ → ServiceSettings δ} (h : setParsed l parse set x=.ok y) :
    ∃ str v,parse str=.ok v ∧ y=(set v x.1,x.2) := by
  obtain ⟨str,-,h⟩ := ok_of_bind h
  obtain ⟨v,hp,h⟩ := ok_of_bind h
  cases h
  exact ⟨str,v,hp,rfl⟩

theorem setCommand_ok {get : ServiceSettings δ → List UInt8 × List (UInt32 × UInt32)}
    {set : List UInt8 × List (UInt32 × UInt32) → ServiceSettings δ → ServiceSettings δ}
    (h : setCommand l get set x=.ok y) :
    ∃ v,SettingId.readCommand l (get x.1)=.ok v ∧ y=(set v x.1,x.2) := by
  rw [SettingId.setCommand_map] at h
  cases hr : SettingId.readCommand l (get x.1) with
  | error e => simp [hr,Except.map] at h
  | ok v => exact ⟨v,rfl,by simpa [hr,Except.map] using h.symm⟩

theorem setTime_ok {paramname : String} {set : Nat × Nat → ServiceSettings δ → ServiceSettings δ}
    (h : setTime c l paramname set x=.ok y) : ∃ t,TimeOk t ∧ y=(set t x.1,x.2) := by
  obtain ⟨str,t,ht,hy⟩ := setParsed_ok h
  cases hp : parseTimespec paramname str with
  | error e => simp [hp] at ht
  | ok t' =>
    obtain rfl : t'=t := by simpa [hp] using ht
    exact ⟨t',parseTimespec_ok hp,hy⟩

theorem setChoice_ok {choice : List UInt8 → Option α} {excInfo : List UInt8 → List UInt8}
    {settingName : String} {set : α → ServiceSettings δ → ServiceSettings δ}
    (h : setChoice c l choice excInfo settingName set x=.ok y) :
    ∃ str v,choice str=some v ∧ y=(set v x.1,x.2) := by
  obtain ⟨str,v,hv,hy⟩ := setParsed_ok h
  cases hc : choice str with
  | none => simp [hc] at hv
  | some v' =>
    obtain rfl : v'=v := by simpa [hc] using hv
    exact ⟨str,v',hc,hy⟩

theorem setWords_ok {get : ServiceSettings δ → α} {word : α → List UInt8 → Option α}
    {excInfo settingName : String} {set : α → ServiceSettings δ → ServiceSettings δ}
    {P : α → Prop} (hw : ∀ {a w},P a → ∀ b,word a w=some b → P b) (hx : P (get x.1))
    (h : setWords c l get word excInfo settingName set x=.ok y) : ∃ v,P v ∧ y=(set v x.1,x.2) := by
  obtain ⟨ws,-,h⟩ := ok_of_bind h
  obtain ⟨v,hf,h⟩ := ok_of_bind h
  cases h
  exact ⟨v,foldWords_keeps hw hf hx,rfl⟩

theorem setInittab_ok {size : Nat} {excInfo : String}
    {set : List UInt8 → ServiceSettings δ → ServiceSettings δ}
    (h : setInittab c l size excInfo set x=.ok y) :
    y=x ∨ ∃ v,v.length=size ∧ y=(set v x.1,x.2) := by
  obtain ⟨str,-,h⟩ := ok_of_bind h
  split_ifs at h with hu hs
  · cases h
    refine .inr ⟨strncpy size str,?_,rfl⟩
    have hc : (cString str).length≤ str.length := (List.takeWhile_sublist _).length_le
    simp [strncpy]
    omega
  · cases h
    exact .inl rfl

theorem setRlimit_ok {resourceId : Int} {paramName : String}
    (hr : resourceId∈[rlimitNofileId,rlimitCoreId,rlimitDataId,rlimitAsId])
    (hx : RlimitsOk x.1.rlimits) (h : setRlimit c l resourceId paramName x=.ok y) :
    RlimitsOk y.1.rlimits := by
  obtain ⟨str,-,h⟩ := ok_of_bind h
  obtain ⟨limits,hu,h⟩ := ok_of_bind h
  cases h
  refine hx.update hr (fun {r t} ht => ?_) hu
  cases hp : parseRlimit str paramName r with
  | error e => simp [hp] at ht
  | ok t' =>
    obtain rfl : t'=t := by simpa [hp] using ht
    exact parseRlimit_resourceId hp

theorem setCapabilities_ok (h : setCapabilities c l x=.ok y) : CapabilitiesOk c y.1.capabilities := by
  obtain ⟨v,hr,h⟩ := ok_of_bind h
  cases h
  intro text ht
  obtain rfl := Option.some.inj ht
  unfold readCapabilities at hr
  split at hr
  · cases hr
  · dsimp only at hr
    split_ifs at hr with he
    split at hr <;> cases hr
    exact ⟨he,by assumption⟩

theorem setEnvFile_ok (h : setEnvFile c l x=.ok y) : EnvFileOk c (y.1.envFile,y.1.envFileDirFd) := by
  obtain ⟨v,-,h⟩ := ok_of_bind h
  split_ifs at h with hv
  · cases h
    exact .inr (.inl hv)
  · split at h
    · cases h
    · rename_i fd hd
      cases h
      exact .inr (.inr ⟨l.resolveFd,hd⟩)

theorem setResolved_ok {settingName : String} {check : List UInt8 → Except LineFault (List UInt8)}
    {set : List UInt8 → ServiceSettings δ → ServiceSettings δ}
    (h : setResolved c l settingName check set x=.ok y) :
    ∃ v w,check v=.ok w ∧ y=(set w x.1,x.2) := by
  obtain ⟨v,-,h⟩ := ok_of_bind h
  obtain ⟨w,hw,h⟩ := ok_of_bind h
  cases h
  exact ⟨v,w,hw,rfl⟩

theorem parseIoprio_ok {str : List UInt8} {v : Int} (h : parseIoprio c l str=.ok v) : IoprioOk v := by
  have class_ok {s : List UInt8} {n : Nat} (cls : Nat) (hc : cls=1 ∨ cls=2)
      (hn : parseUnumParam c.name l.inputPos s 7=.ok n) : IoprioOk (ioprioPrioValue cls n) := by
    refine .inr (.inr (.inr ⟨n,parseUnumParam_le hn,?_⟩))
    rcases hc with rfl | rfl
    · exact .inl rfl
    · exact .inr rfl
  unfold parseIoprio at h
  split_ifs at h
  · cases h
    exact .inr (.inl rfl)
  · obtain ⟨n,hn,h⟩ := ok_of_bind h
    cases h
    exact class_ok 1 (.inl rfl) hn
  · obtain ⟨n,hn,h⟩ := ok_of_bind h
    cases h
    exact class_ok 2 (.inr rfl) hn
  · cases h
    exact .inr (.inr (.inl rfl))

theorem parseReadiness_fd {str : List UInt8} {fd : Int} (h : parseReadiness c l str=.ok (.inl fd)) :
    0≤ fd ∧ fd≤ intMax := by
  unfold parseReadiness at h
  split_ifs at h
  · obtain ⟨n,hn,h⟩ := ok_of_bind h
    cases h
    exact ⟨Int.natCast_nonneg n,Int.ofNat_le.mpr (parseUnumParam_le hn)⟩
  · dsimp only at h
    split_ifs at h
    cases h

namespace SettingId

/-- Each setting keeps what holds of the part of its group. -/
theorem process_ok (id : SettingId) (h : id.process c l x=.ok y)
    (hx : id.group.Ok c (id.group.view x)) : id.group.Ok c (id.group.view y) := by
  cases id <;> try exact trivial
  all_goals simp only [process] at h
  case command | stopCommand =>
    obtain ⟨v,hv,rfl⟩ := setCommand_ok h
    exact readCommand_ok hx hv
  case envFile => exact setEnvFile_ok h
  case capabilities => exact setCapabilities_ok h
  case securebits =>
    have hx : AtMost 63 (if l.settingOp≠.plusAssign then 0 else x.1.secbits) := by
      split
      · exact Nat.zero_le _
      · exact hx
    obtain ⟨v,hv,rfl⟩ := setWords_ok (P := AtMost 63) (fun ha => securebit_le ha) hx h
    exact hv
  case options =>
    have hx : FlagsOk x.1.onstartFlags := hx
    obtain ⟨v,hv,rfl⟩ := setWords_ok (P := FlagsOk) (fun ha => option_ok ha) hx h
    exact hv
  case nice =>
    obtain ⟨str,v,hv,rfl⟩ := setParsed_ok h
    exact fun n hn => Option.some.inj hn ▸ parseSnumParam_within hv
  case oomScoreAdj =>
    obtain ⟨str,v,hv,rfl⟩ := setParsed_ok h
    exact fun n hn => Option.some.inj hn ▸ parseSnumParam_within hv
  case ioprio =>
    obtain ⟨str,v,hv,rfl⟩ := setParsed_ok h
    exact parseIoprio_ok hv
  case logBufferSize | restartLimitCount =>
    obtain ⟨str,v,hv,rfl⟩ := setParsed_ok h
    exact parseUnumParam_le hv
  case restartLimitInterval | restartDelay | stopTimeout | startTimeout =>
    obtain ⟨t,ht,rfl⟩ := setTime_ok h
    exact ht
  case termSignal | termsignal =>
    obtain ⟨str,v,hv,rfl⟩ := setChoice_ok h
    exact signalNameToNumber_ok hv
  case consumerOf =>
    obtain ⟨v,w,hw,rfl⟩ := setResolved_ok h
    split_ifs at hw with hv
    exact .inr (Except.ok.inj hw ▸ hv)
  case readyNotification =>
    obtain ⟨str,v,hv,rfl⟩ := setParsed_ok h
    cases v with
    | inl fd =>
      obtain ⟨h0,hm⟩ := parseReadiness_fd hv
      exact ⟨(by decide : (-1 : Int)≤0).trans h0,hm⟩
    | inr name => exact hx
  case inittabId | inittabLine =>
    obtain rfl | ⟨v,hv,rfl⟩ := setInittab_ok h
    · exact hx
    · exact hv
  case rlimitNofile | rlimitCore | rlimitData | rlimitAddrspace =>
    exact setRlimit_ok (by decide) hx h

end SettingId

def groupOk (c : LineContext δ σ) :
    (g : Option SettingId) → (match g with | none => Unit | some g => g.View δ σ) → Prop
  | none,_ => True
  | some g,v => g.Ok c v

/-- What holds of the parts of all groups, the lines of a description keep. -/
theorem processServiceLines_ok {ls : List SettingLine} (h : processServiceLines c ls x=.ok y)
    (hx : ∀ g : SettingId,g.Ok c (g.view x)) (g : SettingId) : g.Ok c (g.view y) := by
  refine (settingFootprint c).run_keeps (P := groupOk c) (fun {l x y} h hx => ?_) h (fun g => ?_)
    (some g)
  · obtain ⟨id,hid,hp⟩ := processServiceLine_own c h
    have hg : (settingFootprint c).group l=some id.group := hid
    rw [hg] at hx ⊢
    exact id.process_ok ((congrFun hp x).symm.trans h) hx
  · cases g with
    | none => trivial
    | some g => exact hx g

theorem start_ok (mode : AutoRestartMode) (w : σ) (g : SettingId) :
    g.Ok c (g.view (({autoRestart := mode},w) : LineState δ σ)) := by
  have command : CommandOk [] [] := ⟨by simp,by simp,by simp⟩
  cases g
  case command | stopCommand => exact command
  case envFile | consumerOf => exact .inl rfl
  case capabilities | nice | oomScoreAdj => exact nofun
  case logBufferSize => exact (by decide : 4096≤unsignedMax/2)
  case restartLimitCount => exact (by decide : 3≤ intMax)
  case securebits => exact Nat.zero_le _
  case options => exact ⟨nofun,nofun⟩
  case termSignal => exact (by decide : sigTerm∈signalToIntMap.map Prod.snd)
  case restartLimitInterval | stopTimeout | startTimeout => exact (by decide : 0<10^9)
  case restartDelay => exact (by decide : 200000000<10^9)
  case readyNotification => exact ⟨le_rfl,(by decide : (-1 : Int)≤ intMax)⟩
  case inittabId | inittabLine => exact List.length_replicate
  case ioprio => exact .inl rfl
  case rlimitNofile => exact ⟨.nil,fun _ hr => absurd hr List.not_mem_nil⟩
  all_goals exact trivial

/-- What holds of the settings that are accepted, besides that -/
structure Finished (s : ServiceSettings δ) : Prop where
  command : s.serviceType.runsProcess → s.command≠[]
  readiness : s.serviceType=.bgprocess → s.readinessFd=-1 ∧ s.readinessVar=[]
  killAll : s.onstartFlags.killAllOnStop=true → s.serviceType=.internal ∨ s.serviceType=.scripted
  consumer : s.consumerOfName≠[] → s.serviceType=.process ∨ s.serviceType=.bgprocess
  logfile : s.logType≠.logfile → s.logfile=[]

theorem reportAll_ok {name : List UInt8} {checks : List (Bool × String)} {u : Unit}
    (h : reportAll (throwReports name).reportError checks=.ok u) :
    ∀ check∈checks,check.1=false := by
  induction checks with
  | nil => simp
  | cons check checks ih =>
    obtain ⟨w,hw,h⟩ := ok_of_bind ((List.foldlM_cons ..).symm.trans h)
    intro check' hc
    obtain rfl | hc := List.mem_cons.mp hc
    · cases hb : check'.1 with
      | false => rfl
      | true => simp [hb,throwReports] at hw
    · exact ih h check' hc

/-- The checks have not failed, and only what is resolved or has no owner yet is changed. -/
theorem finalise_ok {e : FinaliseContext δ} {name : List UInt8} {s t : ServiceSettings δ}
    (h : finalise e s (throwReports name)=.ok t) :
    Finished t ∧ ∃ socketPath logfile workingDir pidFile,
      t=setOwners e {s with socketPath,logfile,workingDir,pidFile} := by
  obtain ⟨_,hcommand,h⟩ := ok_of_bind h
  obtain ⟨-,-,h⟩ := ok_of_bind h
  obtain ⟨_,hearly,h⟩ := ok_of_bind h
  obtain ⟨socketPath,-,h⟩ := ok_of_bind h
  obtain ⟨logfile,-,h⟩ := ok_of_bind h
  obtain ⟨workingDir,-,h⟩ := ok_of_bind h
  obtain ⟨pidFile,-,h⟩ := ok_of_bind h
  obtain ⟨_,hconsumer,h⟩ := ok_of_bind h
  have hcommand := reportAll_ok hcommand
  have hearly := reportAll_ok hearly
  have hconsumer := reportAll_ok hconsumer
  cases h
  refine ⟨⟨fun hr hc => ?_,fun hb => ?_,fun hk => ?_,fun hc => ?_,fun hl => ?_⟩,_,_,_,_,rfl⟩
  · have hr : s.serviceType.runsProcess := hr
    have hc : s.command=[] := hc
    simp [hr,hc] at hcommand
  · have hb : s.serviceType=.bgprocess := hb
    simp [earlyChecks,hb] at hearly
    exact hearly.2.1
  · have hk : s.onstartFlags.killAllOnStop=true := hk
    simp [earlyChecks,hk] at hearly
    exact Classical.or_iff_not_imp_left.mpr hearly.2.2
  · have hc : s.consumerOfName≠[] := hc
    simp [hc] at hconsumer
    exact Classical.or_iff_not_imp_left.mpr hconsumer
  · exact if_pos hl

/-- Whatever the lines of a description are, the settings that are loaded from it are in order: the
places of the parts are in the command, numbers are in their bounds, and flags and limits agree with
one another. -/
theorem loadSettings_wellFormed (e : FinaliseContext δ) (ls : List SettingLine)
    (mode : AutoRestartMode) (w : σ) (h : loadSettings c e ls ({autoRestart := mode},w)=.ok y) :
    (∀ g : SettingId,g.Ok c (g.view y)) ∧ Finished y.1 := by
  obtain ⟨x,hx,h⟩ := ok_of_bind h
  obtain ⟨t,ht,h⟩ := ok_of_bind h
  cases h
  obtain ⟨hf,_,_,_,_,rfl⟩ := finalise_ok ht
  refine ⟨fun g => ?_,hf⟩
  have hg := processServiceLines_ok hx (start_ok mode w) g
  cases g <;> exact hg

end

open SettingId (easyContext)

/-- No variables, and a user and a group -/
def easyFinalise : FinaliseContext Unit where
  build := ⟨true,true,true,true,true,true⟩
  varSubst _ _ := none
  serviceArg := none
  getuid := 0
  getgid := 0

def processLines : List SettingLine :=
  [⟨literal "type",.assign,1,3,literal "process"⟩,⟨literal "command",.assign,2,3,literal "/bin/a"⟩]

theorem processServiceLine_eq {δ σ : Type} {c : LineContext δ σ} {l : SettingLine}
    {details : SettingDetails} (hf : findSetting c.build l.setting=some details)
    (hop : l.settingOp≠.plusAssign) (s : LineState δ σ) :
    processServiceLine c l s=details.settingId.process c l s := by
  simp [processServiceLine,hf,hop]

theorem processLines_loaded : ∃ y : LineState Unit Unit,
    loadSettings easyContext easyFinalise processLines ({autoRestart := .never},())=.ok y := by
  let x : LineState Unit Unit := ({autoRestart := .never},())
  have h1 : processServiceLine easyContext ⟨literal "type",.assign,1,3,literal "process"⟩ x=
      .ok ({x.1 with serviceType := .process},()) := by
    have hf : findSetting ⟨true,true,true,true,true,true⟩ (literal "type")=
      some ⟨"type",.type,false,true,false⟩ := by decide
    rw [processServiceLine_eq hf (by decide)]
    simp only [SettingId.process,setChoice]
    exact (SettingId.setParsed_word (by decide) _ _ _).trans rfl
  let y : LineState Unit Unit := ({x.1 with serviceType := .process},())
  have h2 : processServiceLine easyContext ⟨literal "command",.assign,2,3,literal "/bin/a"⟩ y=
      .ok ({y.1 with command := literal "/bin/a",commandOffsets := [(0,6)]},()) := by
    have hf : findSetting ⟨true,true,true,true,true,true⟩ (literal "command")=
      some ⟨"command",.command,false,true,true⟩ := by decide
    rw [processServiceLine_eq hf (by decide)]
    simp only [SettingId.process]
    exact (SettingId.setCommand_word (by decide) _ (by decide) _ _).trans rfl
  have h : processServiceLines easyContext processLines x=
      .ok ({y.1 with command := literal "/bin/a",commandOffsets := [(0,6)]},()) :=
    (settingFootprint easyContext).run_cons_ok.mpr
      ⟨y,h1,(settingFootprint easyContext).run_cons_ok.mpr ⟨_,h2,rfl⟩⟩
  unfold loadSettings
  rw [h]
  exact ⟨_,rfl⟩

/-- The settings of a process with a command -/
theorem loadSettings_wellFormed_process : ∃ y : LineState Unit Unit,
    loadSettings easyContext easyFinalise processLines ({autoRestart := .never},())=.ok y ∧
      (∀ g : SettingId,g.Ok easyContext (g.view y)) ∧ Finished y.1 := by
  obtain ⟨y,hy⟩ := processLines_loaded
  exact ⟨y,hy,loadSettings_wellFormed easyFinalise processLines .never () hy⟩

end Dinit
