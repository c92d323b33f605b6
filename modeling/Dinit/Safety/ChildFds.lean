import Dinit.Daemon.ChildFds

namespace Dinit

open Framework

namespace ChildFds

/-- What a descriptor is for -/
inductive Role
  | input
  | output
  | wpipe
  | cs
  | socket
  | notify

section
variable {β : Type} {sys : System β} {t t' : Table β} {s s' : Fds β} {file : Role → β}

/-- The number of each role, with those of the input and the output, for which there is no variable -/
def place (i o : Option Nat) (s : Fds β) : Role → Option Nat
  | .input => i
  | .output => o
  | .wpipe => some s.wpipefd
  | .cs => s.csfd
  | .socket => s.socketFd
  | .notify => s.notifyFd

/-- What is held with the output left out of account -/
theorem place_none {i : Option Nat} {r : Role} {n : Nat} (h : place i none s r=some n)
    (o : Option Nat) : r≠.output ∧ place i o s r=some n := by
  cases r with
  | output => cases h
  | _ => exact ⟨(nomatch ·),h⟩

def start (p : Params) (t : Table β) : Fds β := ⟨t,p.wpipefd,p.csfd,p.socketFd,p.notifyFd⟩

/-- Each role's file is where it belongs. -/
structure Kept (p : Params) (file : Role → β) (s : Fds β) : Prop where
  input : p.inputFd≠none → s.table.get 0=some (file .input)
  stdout : p.outputFd≠none → s.notifyFd≠some 1 → s.table.get 1=some (file .output)
  stderr : p.outputFd≠none → s.notifyFd≠some 2 → s.table.get 2=some (file .output)
  wpipe : s.table.get s.wpipefd=some (file .wpipe)
  cs : p.csfd≠none → ∃ n,s.csfd=some n ∧ s.table.get n=some (file .cs)
  socket : p.socketFd≠none → s.table.get 3=some (file .socket)
  notify : p.notifyFd≠none → ∃ n,s.notifyFd=some n ∧ s.table.get n=some (file .notify)
  forced : ∀ f,p.forceNotifyFd=some f → s.notifyFd=some f

/-- The output has neither the forced number nor that of the socket. -/
def NoClash (p : Params) (o : Option Nat) : Prop :=
  ∀ n,o=some n → p.forceNotifyFd≠some n ∧ (p.socketFd≠none → n≠3)

theorem dup2_get {c : Call} {fd dest : Nat} {b : β} (hget : t.get fd=some b)
    (h : dup2 sys c t fd dest=some t') : t'=t.put dest (some b) := by
  unfold dup2 at h
  split at h
  · cases h
  · rw [hget] at h
    cases h
    rfl

/-- A file is duplicated or moved to a number that nobody holds. -/
theorem dup2_held {pos : Role → Option Nat} {c : Call} {fd dest : Nat} (h : Held t pos file)
    (hdest : ∀ r,pos r≠some dest) (hdup : dup2 sys c t fd dest=some t') : Held t' pos file := by
  unfold dup2 at hdup
  split at hdup
  · cases hdup
  · obtain ⟨b,-,rfl⟩ := Option.map_eq_some_iff.mp hdup
    exact h.put _ hdest

theorem moveFd_held {pos : Role → Option Nat} {c : Call} {fd dest : Nat} (h : Held t pos file)
    (hfd : ∀ r,pos r≠some fd) (hdest : ∀ r,pos r≠some dest)
    (hmove : moveFd sys c t fd dest=some t') : Held t' pos file := by
  unfold moveFd at hmove
  split at hmove
  · cases hmove
    exact h
  · obtain ⟨t1,hdup,rfl⟩ := Option.map_eq_some_iff.mp hmove
    exact (dup2_held h hdest hdup).put _ hfd

theorem moveFd_get {c : Call} {fd dest : Nat} {b : β} (hget : t.get fd=some b)
    (h : moveFd sys c t fd dest=some t') :
    t'.get dest=some b ∧ ∀ n,n≠dest → n≠fd → t'.get n=t.get n := by
  unfold moveFd at h
  split at h
  · next heq =>
    cases h
    rw [← heq]
    exact ⟨hget,fun _ _ _ => rfl⟩
  · next hne =>
    obtain ⟨t1,hdup,rfl⟩ := Option.map_eq_some_iff.mp h
    rw [dup2_get hget hdup]
    constructor
    · rw [Table.get_put,if_neg (Ne.symm hne),Table.get_put,if_pos rfl]
    · intro n hdest hfd
      rw [Table.get_put,if_neg hfd,Table.get_put,if_neg hdest]

/-- The input is moved to descriptor 0. -/
theorem moveInput_held {p : Params} {pos : Role → Option Nat} (h : Held t pos file)
    (hi : pos .input=p.inputFd) (hstd : ∀ r n,pos r=some n → 2<n) (hrun : moveInput sys p t=some t') :
    ∀ pos' : Role → Option Nat,pos' .input=p.inputFd.map (fun _ => 0) →
      (∀ r,r≠.input → pos' r=pos r) → Held t' pos' file := by
  intro pos' hi' hsame
  unfold moveInput at hrun
  cases hin : p.inputFd with
  | none =>
    rw [hin] at hrun hi hi'
    cases hrun
    refine h.weaken fun r n hr => ?_
    by_cases hne : r=.input
    · rw [hne,hi'] at hr
      cases hr
    · rw [← hsame r hne]
      exact hr
  | some fd =>
    rw [hin] at hrun hi hi'
    have hpos : 2<fd := hstd .input fd hi
    have hget := h.get .input fd hi
    have hdest : ∀ r n,pos r=some n → n≠0 := fun r n hr => by
      have := hstd r n hr
      omega
    unfold moveFd at hrun
    dsimp only at hrun
    rw [if_neg (by omega)] at hrun
    obtain ⟨t1,hdup,rfl⟩ := Option.map_eq_some_iff.mp hrun
    rw [dup2_get hget hdup]
    have hzero : pos' .input=some 0 := hi'
    have hmoved := h.move hzero hsame fun r _ heq => hdest r 0 heq rfl
    exact hmoved.put none (h.left hi hzero (by omega) hsame)

/-- A function that sets the variable of a role -/
structure Sets (i o : Option Nat) (set : Nat → Table β → Fds β) (s : Fds β) (r : Role) : Prop where
  table : ∀ n t,(set n t).table=t
  role : ∀ n t,place i o (set n t) r=some n
  others : ∀ n t r',r'≠r → place i o (set n t) r'=place i o s r'

/-- One role may have got another number, from `least` on. -/
structure Moves (i o : Option Nat) (file : Role → β) (r : Role) (least : Nat) (s s' : Fds β) : Prop where
  held : Held s'.table (place i o s') file
  others : ∀ r',r'≠r → place i o s' r'=place i o s r'
  role : place i o s' r=place i o s r ∨
    place i o s r≠none ∧ ∃ n,place i o s' r=some n ∧ least≤ n

variable {i o : Option Nat}

theorem dupFd_get {c : Call} {fd least new : Nat} {b : β} (hget : t.get fd=some b)
    (h : dupFd sys c t fd least=some (new,t')) :
    new=t.lowest least ∧ t'=t.put (t.lowest least) (some b) := by
  unfold dupFd at h
  split at h
  · cases h
  · rw [hget] at h
    cases h
    exact ⟨rfl,rfl⟩

/-- A role that has the forced number gets another. -/
theorem moveAway_moves {c : Call} {force least : Nat} {r : Role} {set : Nat → Table β → Fds β}
    (h : Held s.table (place i o s) file) (hset : Sets i o set s r)
    (hrun : moveAway sys c force least (place i o s r) set s=some s') :
    Moves i o file r least s s' ∧ place i o s' r≠some force := by
  unfold moveAway at hrun
  split at hrun
  · next hforce =>
    obtain ⟨⟨new,t1⟩,hres,rfl⟩ := Option.map_eq_some_iff.mp hrun
    obtain ⟨⟨new1,t2⟩,hdup,heq⟩ := Option.map_eq_some_iff.mp hres
    cases heq
    have hget := h.get r force hforce
    obtain ⟨hnew,rfl⟩ := dupFd_get hget hdup
    have hne : new≠force := by
      rw [hnew]
      exact (Table.ne_lowest hget).symm
    have hrole := hset.role new ((s.table.put (s.table.lowest least) (some (file r))).put force none)
    have hsame := hset.others new ((s.table.put (s.table.lowest least) (some (file r))).put force none)
    have hmoved := h.move hrole hsame fun r' _ => by
      rw [hnew]
      exact h.ne_lowest least r'
    rw [hnew] at hmoved
    refine ⟨⟨?_,hsame,.inr ⟨?_,new,hrole,?_⟩⟩,?_⟩
    · rw [hset.table]
      rw [hnew] at hrole hne hsame ⊢
      exact hmoved.put none (h.left hforce hrole hne hsame)
    · rw [hforce]
      exact (nomatch ·)
    · rw [hnew]
      exact s.table.le_lowest least
    · rw [hrole]
      exact fun heq => hne (Option.some.inj heq)
  · next hforce =>
    cases hrun
    exact ⟨⟨h,fun _ _ => rfl,.inl rfl⟩,hforce⟩

/-- A role has a number that is high enough, or the forced one. -/
theorem raise_moves {c : Call} {force : Option Nat} {least : Nat} {r : Role}
    {set : Nat → Table β → Fds β} (h : Held s.table (place i o s) file) (hset : Sets i o set s r)
    (hrun : raise sys c force least (place i o s r) set s=some s') :
    Moves i o file r least s s' ∧ (∀ n,place i o s' r=some n → least≤ n ∨ some n=force) ∧
      (place i o s r=force → place i o s' r=force) := by
  unfold raise at hrun
  cases hr : place i o s r with
  | none =>
    rw [hr] at hrun
    cases hrun
    rw [hr]
    exact ⟨⟨h,fun _ _ => rfl,.inl rfl⟩,fun n hn => (nomatch hn),id⟩
  | some m =>
    rw [hr] at hrun
    dsimp only at hrun
    split at hrun
    · next hlow =>
      obtain ⟨⟨new,t1⟩,hdup,rfl⟩ := Option.map_eq_some_iff.mp hrun
      obtain ⟨hnew,rfl⟩ := dupFd_get (h.get r m hr) hdup
      have hrole := hset.role new (s.table.put (s.table.lowest least) (some (file r)))
      have hsame := hset.others new (s.table.put (s.table.lowest least) (some (file r)))
      have hleast : least≤ new := by
        rw [hnew]
        exact s.table.le_lowest least
      refine ⟨⟨?_,hsame,.inr ⟨?_,new,hrole,hleast⟩⟩,?_,fun heq => absurd heq hlow.2⟩
      · rw [hset.table]
        rw [hnew] at hrole hsame ⊢
        exact h.move hrole hsame fun r' _ => h.ne_lowest least r'
      · rw [hr]
        exact (nomatch ·)
      · intro n hn
        rw [hrole] at hn
        exact .inl (Option.some.inj hn ▸ hleast)
    · next hlow =>
      cases hrun
      refine ⟨⟨h,fun _ _ => rfl,.inl rfl⟩,?_,fun heq => by rw [hr]; exact heq⟩
      intro n hn
      rw [hr] at hn
      cases hn
      by_cases hforce : some m=force
      · exact .inr hforce
      · exact .inl (Nat.not_lt.mp fun hlt => hlow ⟨hlt,hforce⟩)

theorem placeNotify_held {f : Nat} (h : Held s.table (place i o s) file)
    (hfree : ∀ r,r≠.notify → place i o s r≠some f) (hrun : placeNotify sys f s=some s') :
    Held s'.table (place i o s') file ∧ s'.notifyFd=some f ∧ s.notifyFd≠none ∧
      ∀ r,r≠.notify → place i o s' r=place i o s r := by
  unfold placeNotify at hrun
  cases hn : s.notifyFd with
  | none =>
    rw [hn] at hrun
    cases hrun
  | some fd =>
    rw [hn] at hrun
    dsimp only at hrun
    split at hrun
    · next heq =>
      cases hrun
      exact ⟨h,by rw [hn,heq],(nomatch ·),fun _ _ => rfl⟩
    · next hne =>
      obtain ⟨t1,hdup,rfl⟩ := Option.map_eq_some_iff.mp hrun
      have hnotify : place i o s .notify=some fd := hn
      rw [dup2_get (h.get .notify fd hnotify) hdup]
      have hsame : ∀ r,r≠.notify →
          place i o {s with
            table := (s.table.put f (some (file .notify))).put fd none,notifyFd := some f} r=
            place i o s r := by
        intro r hr
        cases r with
        | notify => exact absurd rfl hr
        | _ => rfl
      have hrole : place i o {s with
          table := (s.table.put f (some (file .notify))).put fd none,notifyFd := some f} .notify=
          some f := rfl
      have hmoved := h.move hrole hsame hfree
      exact ⟨hmoved.put none (h.left hnotify hrole (Ne.symm hne) hsame),rfl,(nomatch ·),hsame⟩

theorem sets_wpipe (i o : Option Nat) (s : Fds β) :
    Sets i o (fun fd t => {s with table := t,wpipefd := fd}) s .wpipe := by
  refine ⟨fun _ _ => rfl,fun _ _ => rfl,fun n t r hr => ?_⟩
  cases r with
  | wpipe => exact absurd rfl hr
  | _ => rfl

theorem sets_cs (i o : Option Nat) (s : Fds β) :
    Sets i o (fun fd t => {s with table := t,csfd := some fd}) s .cs := by
  refine ⟨fun _ _ => rfl,fun _ _ => rfl,fun n t r hr => ?_⟩
  cases r with
  | cs => exact absurd rfl hr
  | _ => rfl

theorem sets_socket (i o : Option Nat) (s : Fds β) :
    Sets i o (fun fd t => {s with table := t,socketFd := some fd}) s .socket := by
  refine ⟨fun _ _ => rfl,fun _ _ => rfl,fun n t r hr => ?_⟩
  cases r with
  | socket => exact absurd rfl hr
  | _ => rfl

theorem sets_notify (i o : Option Nat) (s : Fds β) :
    Sets i o (fun fd t => {s with table := t,notifyFd := some fd}) s .notify := by
  refine ⟨fun _ _ => rfl,fun _ _ => rfl,fun n t r hr => ?_⟩
  cases r with
  | notify => exact absurd rfl hr
  | _ => rfl

theorem Moves.none_iff {r : Role} {least : Nat} (h : Moves i o file r least s s') (r' : Role) :
    place i o s' r'=none ↔ place i o s r'=none := by
  by_cases hne : r'=r
  · rw [hne]
    obtain heq | ⟨hsome,n,hn,-⟩ := h.role
    · rw [heq]
    · rw [hn]
      simp [hsome]
  · rw [h.others r' hne]

theorem Moves.least {r : Role} {least k : Nat} (h : Moves i o file r least s s') (hk : k≤ least)
    (hs : ∀ n,place i o s r=some n → k≤ n) : ∀ n,place i o s' r=some n → k≤ n := by
  intro n hn
  obtain heq | ⟨-,m,hm,hle⟩ := h.role
  · rw [heq] at hn
    exact hs n hn
  · rw [hm] at hn
    cases hn
    omega

/-- What holds of the numbers before the socket is placed -/
structure Ready (p : Params) (i o : Option Nat) (file : Role → β) (least : Nat) (s : Fds β) : Prop where
  held : Held s.table (place i o s) file
  wpipe : least≤ s.wpipefd
  cs : ∀ n,s.csfd=some n → least≤ n
  notify : ∀ n,s.notifyFd=some n → least≤ n ∨ some n=p.forceNotifyFd
  forced : ∀ f,p.forceNotifyFd=some f → s.notifyFd=some f
  csNone : s.csfd=none ↔ p.csfd=none
  socketNone : s.socketFd=none ↔ p.socketFd=none
  notifyNone : s.notifyFd=none ↔ p.notifyFd=none

theorem three_le_minfd (p : Params) : 3≤ minfd p := by
  unfold minfd
  split
  · omega
  · omega

theorem forceNotify_ready {p : Params} (h : Held t (place i o (start p t)) file)
    (hstd : ∀ r n,r≠.input → place i o (start p t) r=some n → 2<n)
    (hfree : ∀ f,p.forceNotifyFd=some f → i≠some f ∧ o≠some f)
    (hrun : forceNotify sys p (start p t)=some s') : Ready p i o file 3 s' := by
  unfold forceNotify at hrun
  cases hforce : p.forceNotifyFd with
  | none =>
    rw [hforce] at hrun
    cases hrun
    exact ⟨h,hstd .wpipe _ (nomatch ·) rfl,fun n hn => hstd .cs n (nomatch ·) hn,
      fun n hn => .inl (hstd .notify n (nomatch ·) hn),fun f hf => (by rw [hforce] at hf; cases hf),
      Iff.rfl,Iff.rfl,Iff.rfl⟩
  | some f =>
    rw [hforce] at hrun
    obtain ⟨hi,ho⟩ := hfree f hforce
    obtain ⟨s1,h1,hrun⟩ := Option.bind_eq_some_iff.mp hrun
    obtain ⟨m1,n1⟩ := moveAway_moves h (sets_wpipe i o _) h1
    obtain ⟨s2,h2,hrun⟩ := Option.bind_eq_some_iff.mp hrun
    obtain ⟨m2,n2⟩ := moveAway_moves m1.held (sets_cs i o s1) h2
    obtain ⟨s3,h3,hrun⟩ := Option.bind_eq_some_iff.mp hrun
    obtain ⟨m3,n3⟩ := moveAway_moves m2.held (sets_socket i o s2) h3
    have hfar : ∀ r,r≠.notify → place i o s3 r≠some f := by
      intro r hr
      cases r with
      | input => exact hi
      | output => exact ho
      | wpipe =>
        rw [m3.others .wpipe (nomatch ·),m2.others .wpipe (nomatch ·)]
        exact n1
      | cs =>
        rw [m3.others .cs (nomatch ·)]
        exact n2
      | socket => exact n3
      | notify => exact absurd rfl hr
    obtain ⟨hheld,hnotify,hsome,hsame⟩ := placeNotify_held m3.held hfar hrun
    have hminfd := three_le_minfd p
    have hwpipe : place i o s' .wpipe=place i o s1 .wpipe := by
      rw [hsame .wpipe (nomatch ·),m3.others .wpipe (nomatch ·),m2.others .wpipe (nomatch ·)]
    have hcs : place i o s' .cs=place i o s2 .cs := by
      rw [hsame .cs (nomatch ·),m3.others .cs (nomatch ·)]
    have hsocket : place i o s' .socket=place i o s3 .socket := hsame .socket (nomatch ·)
    have hnot : s3.notifyFd=p.notifyFd := by
      have heq : place i o s3 .notify=place i o (start p t) .notify := by
        rw [m3.others .notify (nomatch ·),m2.others .notify (nomatch ·),m1.others .notify (nomatch ·)]
      exact heq
    constructor
    · exact hheld
    · refine m1.least hminfd (fun n hn => hstd .wpipe n (nomatch ·) hn) _ ?_
      rw [← hwpipe]
      rfl
    · intro n hn
      have hcs1 : ∀ n,place i o s1 .cs=some n → 3≤ n := fun n hn =>
        hstd .cs n (nomatch ·) (by rw [← m1.others .cs (nomatch ·)]; exact hn)
      exact m2.least hminfd hcs1 n (by rw [← hcs]; exact hn)
    · intro n hn
      rw [hnotify] at hn
      exact .inr (by rw [hforce]; exact hn.symm)
    · intro f' hf
      rw [hforce] at hf
      rw [← hf]
      exact hnotify
    · have hiff := (m2.none_iff .cs).trans (m1.none_iff .cs)
      rw [← hcs] at hiff
      exact hiff
    · have hiff := ((m3.none_iff .socket).trans (m2.none_iff .socket)).trans (m1.none_iff .socket)
      rw [← hsocket] at hiff
      exact hiff
    · rw [hnotify]
      rw [hnot] at hsome
      simp [hsome]

theorem raiseReserved_ready {p : Params} (h : Ready p i o file 3 s)
    (hrun : raiseReserved sys p s=some s') : Ready p i o file (minfd p) s' := by
  unfold raiseReserved at hrun
  obtain ⟨s1,h1,hrun⟩ := Option.bind_eq_some_iff.mp hrun
  obtain ⟨m1,n1,-⟩ := raise_moves h.held (sets_wpipe i o s) h1
  obtain ⟨s2,h2,h3⟩ := Option.bind_eq_some_iff.mp hrun
  obtain ⟨m2,n2,-⟩ := raise_moves m1.held (sets_cs i o s1) h2
  obtain ⟨m3,n3,k3⟩ := raise_moves m2.held (sets_notify i o s2) h3
  have hwpipe : place i o s' .wpipe=place i o s1 .wpipe := by
    rw [m3.others .wpipe (nomatch ·),m2.others .wpipe (nomatch ·)]
  have hcs : place i o s' .cs=place i o s2 .cs := m3.others .cs (nomatch ·)
  have hnotify : place i o s2 .notify=place i o s .notify := by
    rw [m2.others .notify (nomatch ·),m1.others .notify (nomatch ·)]
  have hnone : ∀ r,place i o s' r=none ↔ place i o s r=none := fun r =>
    ((m3.none_iff r).trans (m2.none_iff r)).trans (m1.none_iff r)
  constructor
  · exact m3.held
  · obtain hle | heq := n1 s'.wpipefd (by rw [← hwpipe]; rfl)
    · exact hle
    · cases heq
  · intro n hn
    obtain hle | heq := n2 n (by rw [← hcs]; exact hn)
    · exact hle
    · cases heq
  · exact n3
  · intro f hf
    have hold : place i o s2 .notify=p.forceNotifyFd := by
      rw [hnotify,hf]
      exact h.forced f hf
    rw [← hf]
    exact k3 hold
  · exact (hnone .cs).trans h.csNone
  · exact (hnone .socket).trans h.socketNone
  · exact (hnone .notify).trans h.notifyNone

/-- The socket is descriptor 3. -/
theorem placeSocket_held (h : Held s.table (place i o s) file)
    (hfree : ∀ r,r≠.socket → s.socketFd≠none → place i o s r≠some 3)
    (hrun : placeSocket sys s=some s') :
    Held s'.table (place i o {s with socketFd := s.socketFd.map fun _ => 3}) file ∧
      s'.wpipefd=s.wpipefd ∧ s'.csfd=s.csfd ∧ s'.notifyFd=s.notifyFd := by
  unfold placeSocket at hrun
  cases hsock : s.socketFd with
  | none =>
    rw [hsock] at hrun
    cases hrun
    refine ⟨h.weaken fun r n hr => ?_,rfl,rfl,rfl⟩
    cases r with
    | socket => cases hr
    | _ => exact hr
  | some fd =>
    rw [hsock] at hrun
    obtain ⟨t1,hdup,rfl⟩ := Option.map_eq_some_iff.mp hrun
    have hold : place i o s .socket=some fd := hsock
    have hrole : place i o {s with socketFd := (some fd).map fun _ => 3} .socket=some 3 := rfl
    have hsame : ∀ r,r≠.socket →
        place i o {s with socketFd := (some fd).map fun _ => 3} r=place i o s r := by
      intro r hr
      cases r with
      | socket => exact absurd rfl hr
      | _ => rfl
    rw [dup2_get (h.get .socket fd hold) hdup]
    have hmoved := h.move hrole hsame fun r hr => hfree r hr (by rw [hsock]; exact (nomatch ·))
    refine ⟨?_,rfl,rfl,rfl⟩
    show Held (if fd≠3 then _ else _) _ _
    split
    · next hne => exact hmoved.put none (h.left hold hrole (Ne.symm hne) hsame)
    · exact hmoved

end

section
variable {β : Type} {sys : System β} {t t' : Table β} {s s' : Fds β} {file : Role → β}
  {pos : Role → Option Nat}

theorem closeStandard_held (force : Option Nat) (begin : Nat) (h : Held t pos file)
    (hfree : ∀ k,begin≤ k → k<3 → some k≠force → ∀ r,pos r≠some k) :
    Held (closeStandard force begin t) pos file := by
  unfold closeStandard
  have hlist : ∀ k∈(List.range' begin (3-begin)).filter fun k => some k≠force,∀ r,pos r≠some k := by
    intro k hk
    obtain ⟨hrange,hne⟩ := List.mem_filter.mp hk
    obtain ⟨hle,hlt⟩ := List.mem_range'_1.mp hrange
    exact hfree k hle (by omega) (by simpa using hne)
  generalize (List.range' begin (3-begin)).filter (fun k => some k≠force)=l at hlist
  induction l generalizing t with
  | nil => exact h
  | cons k l ih =>
    exact ih (h.put none (hlist k (List.mem_cons_self ..)))
      fun k' hk => hlist k' (List.mem_cons_of_mem _ hk)

theorem placeNull_held {p : Params} (h : Held s.table pos file)
    (hfree : s.notifyFd≠some 0 → p.inputFd=none → ∀ r,pos r≠some 0)
    (hrun : placeNull sys p s=some s') :
    Held s'.table pos file ∧ s'.wpipefd=s.wpipefd ∧ s'.csfd=s.csfd ∧ s'.notifyFd=s.notifyFd := by
  unfold placeNull at hrun
  split at hrun
  · next hcond =>
    obtain ⟨⟨fd,t1⟩,hopen,hrun⟩ := Option.bind_eq_some_iff.mp hrun
    obtain ⟨t2,hmove,heq⟩ := Option.bind_eq_some_iff.mp hrun
    cases heq
    unfold openFd at hopen
    split at hopen
    · cases hopen
    · cases hopen
      have hnew := h.put (some sys.devNull) (h.ne_lowest 0)
      exact ⟨moveFd_held hnew (h.ne_lowest 0) (hfree hcond.1 hcond.2) hmove,rfl,rfl,rfl⟩
  · cases hrun
    exact ⟨h,rfl,rfl,rfl⟩

theorem placeOutput_numbers {p : Params} (hrun : placeOutput sys p s=some s') :
    s'.wpipefd=s.wpipefd ∧ s'.csfd=s.csfd ∧ s'.notifyFd=s.notifyFd := by
  unfold placeOutput at hrun
  obtain ⟨⟨fd,t1⟩,-,hrun⟩ := Option.bind_eq_some_iff.mp hrun
  dsimp only at hrun
  split at hrun
  · obtain ⟨t2,-,hrun⟩ := Option.bind_eq_some_iff.mp hrun
    split at hrun
    · obtain ⟨t3,-,rfl⟩ := Option.map_eq_some_iff.mp hrun
      exact ⟨rfl,rfl,rfl⟩
    · cases hrun
      exact ⟨rfl,rfl,rfl⟩
  · obtain ⟨t2,-,rfl⟩ := Option.map_eq_some_iff.mp hrun
    exact ⟨rfl,rfl,rfl⟩

theorem outputFile_held {p : Params} {fd : Nat} (h : Held t pos file)
    (hout : ∀ x,p.outputFd=some x → ∀ r,pos r≠some x) (hrun : outputFile sys p t=some (fd,t')) :
    Held t' pos file ∧ ∀ r,pos r≠some fd := by
  unfold outputFile at hrun
  cases hp : p.outputFd with
  | some x =>
    rw [hp] at hrun
    cases hrun
    exact ⟨h,hout fd hp⟩
  | none =>
    rw [hp] at hrun
    obtain ⟨r,hres,hown⟩ := Option.bind_eq_some_iff.mp hrun
    obtain ⟨-,-,rfl⟩ := Option.map_eq_some_iff.mp hown
    unfold openFd at hres
    split at hres
    · cases hres
    · cases hres
      exact ⟨h.put _ (h.ne_lowest 0),h.ne_lowest 0⟩

/-- The output leaves what the others hold, if none of them has its number. -/
theorem placeOutput_held {p : Params} (h : Held s.table pos file)
    (hout : ∀ x,p.outputFd=some x → ∀ r,pos r≠some x)
    (h1 : s.notifyFd≠some 1 → ∀ r,pos r≠some 1) (h2 : s.notifyFd≠some 2 → ∀ r,pos r≠some 2)
    (hrun : placeOutput sys p s=some s') : Held s'.table pos file := by
  unfold placeOutput at hrun
  obtain ⟨⟨fd,t1⟩,hopen,hrun⟩ := Option.bind_eq_some_iff.mp hrun
  obtain ⟨hheld,hfd⟩ := outputFile_held h hout hopen
  dsimp only at hrun
  split at hrun
  · next hn1 =>
    obtain ⟨t2,hmove,hrun⟩ := Option.bind_eq_some_iff.mp hrun
    have hmoved := moveFd_held hheld hfd (h1 hn1) hmove
    split at hrun
    · next hn2 =>
      obtain ⟨t3,hdup,rfl⟩ := Option.map_eq_some_iff.mp hrun
      exact dup2_held hmoved (h2 hn2) hdup
    · cases hrun
      exact hmoved
  · next hn1 =>
    obtain ⟨t2,hmove,rfl⟩ := Option.map_eq_some_iff.mp hrun
    have heq : s.notifyFd=some 1 := Decidable.not_not.mp hn1
    refine moveFd_held hheld hfd (h2 ?_) hmove
    rw [heq]
    simp

/-- What is at the output's number goes to descriptors 1 and 2. -/
theorem placeOutput_get {p : Params} {x : Nat} {b : β} (hp : p.outputFd=some x)
    (hget : s.table.get x=some b) (hrun : placeOutput sys p s=some s') :
    (s.notifyFd≠some 1 → s'.table.get 1=some b) ∧ (s.notifyFd≠some 2 → s'.table.get 2=some b) := by
  unfold placeOutput at hrun
  obtain ⟨⟨fd,t1⟩,hopen,hrun⟩ := Option.bind_eq_some_iff.mp hrun
  unfold outputFile at hopen
  rw [hp] at hopen
  cases hopen
  dsimp only at hrun
  split at hrun
  · next hn1 =>
    obtain ⟨t2,hmove,hrun⟩ := Option.bind_eq_some_iff.mp hrun
    have h1 := (moveFd_get hget hmove).1
    split at hrun
    · next hn2 =>
      obtain ⟨t3,hdup,rfl⟩ := Option.map_eq_some_iff.mp hrun
      rw [dup2_get h1 hdup]
      constructor
      · intro _
        rw [Table.get_put,if_neg (by decide)]
        exact h1
      · intro _
        rw [Table.get_put,if_pos rfl]
    · next hn2 =>
      cases hrun
      exact ⟨fun _ => h1,fun h => absurd h hn2⟩
  · next hn1 =>
    obtain ⟨t2,hmove,rfl⟩ := Option.map_eq_some_iff.mp hrun
    exact ⟨fun h => absurd h hn1,fun _ => (moveFd_get hget hmove).1⟩

/-- The input is descriptor 0, and the socket 3. -/
def finalPlace (p : Params) (o : Option Nat) (s : Fds β) : Role → Option Nat :=
  place (p.inputFd.map fun _ => 0) o {s with socketFd := s.socketFd.map fun _ => 3}

/-- The forced number is not one where another role belongs. -/
def ForceFits (p : Params) : Prop :=
  ∀ f,p.forceNotifyFd=some f → (p.socketFd≠none → f≠3) ∧ (p.inputFd≠none → f≠0)

variable {p : Params} {o : Option Nat}

theorem low_free {i : Option Nat} (h : Ready p i o file (minfd p) s) (ho : ∀ x,o=some x → 2<x) {k : Nat}
    (hk : k<3) (hforce : some k≠p.forceNotifyFd) (hin : p.inputFd≠none → k≠0) (r : Role) :
    finalPlace p o s r≠some k := by
  have hminfd := three_le_minfd p
  intro heq
  unfold finalPlace at heq
  cases r with
  | input =>
    obtain ⟨x,hx,hzero⟩ := Option.map_eq_some_iff.mp heq
    exact hin (by rw [hx]; exact (nomatch ·)) hzero.symm
  | output =>
    have := ho k heq
    omega
  | wpipe =>
    have hle := h.wpipe
    have hkeq : s.wpipefd=k := Option.some.inj heq
    omega
  | cs =>
    have := h.cs k heq
    omega
  | socket =>
    obtain ⟨x,-,hthree⟩ := Option.map_eq_some_iff.mp heq
    omega
  | notify =>
    obtain hle | hf := h.notify k heq
    · omega
    · exact hforce hf

theorem three_free (h : Ready p (p.inputFd.map fun _ => 0) o file (minfd p) s) (hclash : NoClash p o)
    (hforce : ForceFits p) (r : Role) (hr : r≠.socket) (hsock : s.socketFd≠none) :
    place (p.inputFd.map fun _ => 0) o s r≠some 3 := by
  have hp : p.socketFd≠none := fun hnone => hsock (h.socketNone.mpr hnone)
  have hminfd : minfd p=4 := by
    unfold minfd
    rw [if_pos (Option.isSome_iff_ne_none.mpr hp)]
  intro heq
  cases r with
  | input =>
    obtain ⟨x,-,hzero⟩ := Option.map_eq_some_iff.mp heq
    cases hzero
  | output => exact (hclash 3 heq).2 hp rfl
  | wpipe =>
    have hle := h.wpipe
    have hkeq : s.wpipefd=3 := Option.some.inj heq
    omega
  | cs =>
    have := h.cs 3 heq
    omega
  | socket => exact hr rfl
  | notify =>
    obtain hle | hf := h.notify 3 heq
    · omega
    · exact (hforce 3 hf.symm).1 hp rfl

/-- What is arranged before the output: the roles that are followed are in their places. -/
theorem runChildProc_held {fin : Fds β} (h : Held t (place p.inputFd o (start p t)) file)
    (hstd : ∀ r n,place p.inputFd o (start p t) r=some n → 2<n) (hclash : NoClash p o)
    (hforce : ForceFits p) (hconsole : p.onConsole=false) (hrun : runChildProc sys p t=some fin) :
    ∃ s2 s,Ready p (p.inputFd.map fun _ => 0) o file (minfd p) s2 ∧
      Held s.table (finalPlace p o s2) file ∧ placeOutput sys p s=some fin ∧
      s.wpipefd=s2.wpipefd ∧ s.csfd=s2.csfd ∧ s.notifyFd=s2.notifyFd := by
  have ho : ∀ x,o=some x → 2<x := hstd .output
  unfold runChildProc at hrun
  obtain ⟨t1,hinput,hrun⟩ := Option.bind_eq_some_iff.mp hrun
  obtain ⟨s1,hnotify,hrun⟩ := Option.bind_eq_some_iff.mp hrun
  obtain ⟨s2,hraise,hrun⟩ := Option.bind_eq_some_iff.mp hrun
  obtain ⟨-,-,hrun⟩ := Option.bind_eq_some_iff.mp hrun
  obtain ⟨s3,hsocket,hrun⟩ := Option.bind_eq_some_iff.mp hrun
  obtain ⟨-,-,hrun⟩ := Option.bind_eq_some_iff.mp hrun
  rw [if_neg (by rw [hconsole]; exact Bool.false_ne_true)] at hrun
  unfold placeStandard at hrun
  obtain ⟨s4,hnull,hout⟩ := Option.bind_eq_some_iff.mp hrun
  have hsame : ∀ r,r≠.input →
      place (p.inputFd.map fun _ => 0) o (start p t1) r=place p.inputFd o (start p t) r := by
    intro r hr
    cases r with
    | input => exact absurd rfl hr
    | _ => rfl
  have hheld1 := moveInput_held h rfl hstd hinput _ rfl hsame
  have hready1 := forceNotify_ready hheld1 (fun r n hr hn => hstd r n (by rw [← hsame r hr]; exact hn))
    (fun f hf => ⟨fun hin => by
      obtain ⟨x,hx,hzero⟩ := Option.map_eq_some_iff.mp hin
      exact (hforce f hf).2 (by rw [hx]; exact (nomatch ·)) hzero.symm,
      fun hof => (hclash f hof).1 hf⟩) hnotify
  have hready := raiseReserved_ready hready1 hraise
  obtain ⟨hheld3,hw3,hc3,hn3⟩ := placeSocket_held hready.held (three_free hready hclash hforce) hsocket
  have hfree : ∀ k,k<3 → some k≠p.forceNotifyFd → (p.inputFd≠none → k≠0) →
      ∀ r,finalPlace p o s2 r≠some k := fun k hk hf hin => low_free hready ho hk hf hin
  have hclosed := closeStandard_held p.forceNotifyFd (if p.inputFd=none then 0 else 1) hheld3
    fun k hle hk hf => hfree k hk hf fun hin => by
      rw [if_neg hin] at hle
      omega
  have hforced : ∀ k,s3.notifyFd≠some k → some k≠p.forceNotifyFd := by
    intro k hk heq
    rw [hn3] at hk
    exact hk (hready.forced k heq.symm)
  obtain ⟨hheld4,hw4,hc4,hn4⟩ := placeNull_held (s := {s3 with
    table := closeStandard p.forceNotifyFd (if p.inputFd=none then 0 else 1) s3.table}) hclosed
    (fun hn hin => hfree 0 (by omega) (hforced 0 hn) fun hne => absurd hin hne) hnull
  exact ⟨s2,s4,hready,hheld4,hout,hw4.trans hw3,hc4.trans hc3,hn4.trans hn3⟩

theorem finalPlace_none (h : Held t (finalPlace p o s) file) : Held t (finalPlace p none s) file :=
  h.weaken fun _ _ hr => (place_none hr o).2

/-- All but the output are in their places at the end. -/
theorem kept_of_held {i : Option Nat} {fin : Fds β} (h : Held fin.table (finalPlace p none s) file)
    (hready : Ready p i o file (minfd p) s) (hw : fin.wpipefd=s.wpipefd) (hc : fin.csfd=s.csfd)
    (hn : fin.notifyFd=s.notifyFd)
    (h1 : p.outputFd≠none → fin.notifyFd≠some 1 → fin.table.get 1=some (file .output))
    (h2 : p.outputFd≠none → fin.notifyFd≠some 2 → fin.table.get 2=some (file .output)) :
    Kept p file fin := by
  refine ⟨fun hin => ?_,h1,h2,?_,fun hcs => ?_,fun hs => ?_,fun hnot => ?_,fun f hf => ?_⟩
  · obtain ⟨x,hx⟩ := Option.ne_none_iff_exists'.mp hin
    exact h.get .input 0 (by rw [finalPlace,hx]; rfl)
  · rw [hw]
    exact h.get .wpipe s.wpipefd rfl
  · obtain ⟨x,hx⟩ := Option.ne_none_iff_exists'.mp fun hnone => hcs (hready.csNone.mp hnone)
    exact ⟨x,by rw [hc,hx],h.get .cs x hx⟩
  · obtain ⟨x,hx⟩ := Option.ne_none_iff_exists'.mp fun hnone => hs (hready.socketNone.mp hnone)
    exact h.get .socket 3 (by rw [finalPlace,hx]; rfl)
  · obtain ⟨x,hx⟩ := Option.ne_none_iff_exists'.mp fun hnone => hnot (hready.notifyNone.mp hnone)
    exact ⟨x,by rw [hn,hx],h.get .notify x hx⟩
  · rw [hn]
    exact hready.forced f hf

end

/-- The roles have different files. -/
def FilesDiffer {β : Type} (p : Params) (t : Table β) (file : Role → β) : Prop :=
  ∀ r r',place p.inputFd p.outputFd (start p t) r≠none →
    place p.inputFd p.outputFd (start p t) r'≠none → file r=file r' → r=r'

/-- Every role of a process that is not on the console gets its file, just as long as the output
descriptor is not the forced notification number, and not 3 where there is a socket: it is the one that
is not moved out of the way. -/
theorem child_descriptors {β : Type} (sys : System β) (p : Params) (t : Table β) (file : Role → β)
    (fin : Fds β) (h : Held t (place p.inputFd p.outputFd (start p t)) file)
    (hstd : ∀ r n,place p.inputFd p.outputFd (start p t) r=some n → 2<n) (hforce : ForceFits p)
    (hconsole : p.onConsole=false) (hrun : runChildProc sys p t=some fin) :
    (NoClash p p.outputFd → Kept p file fin) ∧
      (FilesDiffer p t file → Kept p file fin → NoClash p p.outputFd) := by
  constructor
  · intro hclash
    obtain ⟨s2,s,hready,hheld,hout,hw,hc,hn⟩ := runChildProc_held h hstd hclash hforce hconsole hrun
    obtain ⟨hw',hc',hn'⟩ := placeOutput_numbers hout
    have hfree : ∀ k,k<3 → k≠0 → s.notifyFd≠some k → ∀ r,finalPlace p none s2 r≠some k := by
      intro k hk hzero hnk r heq
      have hforced : some k≠p.forceNotifyFd := fun heq => hnk (by rw [hn]; exact hready.forced k heq.symm)
      exact low_free hready (hstd .output) hk hforced (fun _ => hzero) r (place_none heq p.outputFd).2
    have hother : ∀ x,p.outputFd=some x → ∀ r,finalPlace p none s2 r≠some x := by
      intro x hx r heq
      obtain ⟨hne,hpos⟩ := place_none heq p.outputFd
      exact hne (hheld.apart r .output x hpos hx)
    have hfin := placeOutput_held (finalPlace_none hheld) hother (hfree 1 (by omega) (by omega))
      (hfree 2 (by omega) (by omega)) hout
    have hget : p.outputFd≠none →
        (s.notifyFd≠some 1 → fin.table.get 1=some (file .output)) ∧
          (s.notifyFd≠some 2 → fin.table.get 2=some (file .output)) := by
      intro hsome
      obtain ⟨x,hx⟩ := Option.ne_none_iff_exists'.mp hsome
      exact placeOutput_get hx (hheld.get .output x hx) hout
    refine kept_of_held hfin hready (hw'.trans hw) (hc'.trans hc) (hn'.trans hn) ?_ ?_
    · rw [hn']
      exact fun hsome => (hget hsome).1
    · rw [hn']
      exact fun hsome => (hget hsome).2
  · intro hdiffer hkept x hx
    -- With the output left out of account, another role is found at its number.
    have hnone : Held t (place p.inputFd none (start p t)) file :=
      h.weaken fun _ _ hr => (place_none hr p.outputFd).2
    have hstd' : ∀ r n,place p.inputFd none (start p t) r=some n → 2<n := fun r n hr =>
      hstd r n (place_none hr p.outputFd).2
    obtain ⟨s2,s,hready,hheld,hout,-,-,hn⟩ :=
      runChildProc_held hnone hstd' (fun _ heq => nomatch heq) hforce hconsole hrun
    have hsame : ∀ r,finalPlace p none s2 r=some x →
        place p.inputFd p.outputFd (start p t) r≠none → r=.output := by
      intro r hr hsome
      obtain ⟨h1,h2⟩ := placeOutput_get hx (hheld.get r x hr) hout
      have hnumber := (placeOutput_numbers hout).2.2
      have hpx : p.outputFd≠none := by
        rw [hx]
        exact (nomatch ·)
      have hfile : file r=file .output := by
        by_cases hn1 : s.notifyFd=some 1
        · have hn2 : s.notifyFd≠some 2 := by
            rw [hn1]
            simp
          have hout2 := hkept.stderr hpx (by rw [hnumber]; exact hn2)
          rw [h2 hn2] at hout2
          exact Option.some.inj hout2
        · have hout1 := hkept.stdout hpx (by rw [hnumber]; exact hn1)
          rw [h1 hn1] at hout1
          exact Option.some.inj hout1
      exact hdiffer r .output hsome hpx hfile
    constructor
    · intro hf
      have hnotify : s2.notifyFd=some x := hready.forced x hf
      refine nomatch hsame .notify hnotify ?_
      intro hnone
      have := hready.notifyNone.mpr hnone
      rw [hnotify] at this
      cases this
    · intro hsock hthree
      obtain ⟨y,hy⟩ := Option.ne_none_iff_exists'.mp fun hnone => hsock (hready.socketNone.mp hnone)
      refine nomatch hsame .socket ?_ hsock
      rw [finalPlace,hthree]
      show s2.socketFd.map _=_
      rw [hy]
      rfl

/-- A system on which no call fails -/
def ready : System Nat := ⟨fun _ => false,100,101⟩

/-- Descriptors 0 to 9, with a file at each that is named by its number -/
def tenFds : Table Nat := ⟨(List.range 10).map some⟩

/-- All roles, where the status pipe has to leave 3 and the control socket the forced number -/
def allRoles : Params := ⟨false,3,some 6,some 7,some 8,some 6,some 5,some 4⟩

def allFiles : Role → Nat
  | .input => 4
  | .output => 5
  | .wpipe => 3
  | .cs => 6
  | .socket => 7
  | .notify => 8

theorem child_descriptors_all :
    ∃ fin,runChildProc ready allRoles tenFds=some fin ∧ Kept allRoles allFiles fin := by
  have hheld : Held tenFds (place allRoles.inputFd allRoles.outputFd (start allRoles tenFds)) allFiles := by
    constructor
    · intro r n hr
      cases r <;> cases hr <;> rfl
    · intro r r' n hr hr'
      cases r <;> cases r' <;> cases hr <;> first | rfl | cases hr'
  have hstd : ∀ r n,place allRoles.inputFd allRoles.outputFd (start allRoles tenFds) r=some n → 2<n := by
    intro r n hr
    cases r <;> cases hr <;> decide
  have hforce : ForceFits allRoles := by
    intro f hf
    cases hf
    exact ⟨fun _ => by decide,fun _ => by decide⟩
  have hclash : NoClash allRoles allRoles.outputFd := by
    intro n hn
    cases hn
    exact ⟨by decide,fun _ => by decide⟩
  exact ⟨_,rfl,(child_descriptors ready allRoles tenFds allFiles _ hheld hstd hforce rfl rfl).1 hclash⟩

/-- The output has the number that is forced for notification. -/
def clashing : Params := ⟨false,9,none,none,some 8,some 5,some 5,none⟩

def clashFiles : Role → Nat
  | .output => 5
  | .wpipe => 9
  | .notify => 8
  | _ => 0

/-- The process then writes its output to the notification pipe, and has no notification descriptor. -/
theorem output_overwritten :
    ∃ fin,runChildProc ready clashing tenFds=some fin ∧
      Held tenFds (place clashing.inputFd clashing.outputFd (start clashing tenFds)) clashFiles ∧
      (∀ r n,place clashing.inputFd clashing.outputFd (start clashing tenFds) r=some n → 2<n) ∧
      ForceFits clashing ∧ clashing.onConsole=false ∧
      fin.table.get 1=some 8 ∧ fin.table.get 5=none ∧ ¬Kept clashing clashFiles fin := by
  refine ⟨_,rfl,⟨?_,?_⟩,?_,?_,rfl,rfl,rfl,?_⟩
  · intro r n hr
    cases r <;> cases hr <;> rfl
  · intro r r' n hr hr'
    cases r <;> cases r' <;> cases hr <;> first | rfl | cases hr'
  · intro r n hr
    cases r <;> cases hr <;> decide
  · intro f hf
    cases hf
    exact ⟨fun _ => by decide,fun h => absurd rfl h⟩
  · intro hkept
    cases hkept.stdout (by decide) (by decide)

end ChildFds

end Dinit
