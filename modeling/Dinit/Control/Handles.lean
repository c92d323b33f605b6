import Mathlib.Data.Finset.Card
import Mathlib.Data.List.Pairwise
import Mathlib.Logic.Function.Basic
import Dinit.Framework.Runs

namespace Dinit

/-- The first handle from `candidate` on that is not in an ordered map. -/
def firstGap : List (Nat × Nat) → Nat → Nat
  | [],candidate => candidate
  | p::ps,candidate => if p.1=candidate then firstGap ps (candidate+1) else candidate

/-- `key_service_map[handle] = record` in the ordered map. -/
def insertKey (handle record : Nat) : List (Nat × Nat) → List (Nat × Nat)
  | [] => [(handle,record)]
  | p::ps => if handle<p.1 then (handle,record)::p::ps else p::insertKey handle record ps

theorem mem_insertKey {handle record : Nat} {p : Nat × Nat} (ps : List (Nat × Nat)) :
    p ∈ insertKey handle record ps ↔ p=(handle,record) ∨ p ∈ ps := by
  induction ps with
  | nil => simp [insertKey]
  | cons q ps ih =>
    rw [insertKey]
    split
    · exact List.mem_cons
    · rw [List.mem_cons,ih,List.mem_cons]
      exact or_left_comm

theorem insertKey_sorted {handle record : Nat} {ps : List (Nat × Nat)}
    (hs : ps.Pairwise fun p q => p.1<q.1) (hne : ∀ p ∈ ps,p.1≠handle) :
    (insertKey handle record ps).Pairwise fun p q => p.1<q.1 := by
  induction ps with
  | nil => exact List.pairwise_singleton _ _
  | cons q ps ih =>
    obtain ⟨hq,hps⟩ := List.pairwise_cons.mp hs
    rw [insertKey]
    split
    · next hlt =>
      refine List.pairwise_cons.mpr ⟨fun p hp => ?_,hs⟩
      rcases List.mem_cons.mp hp with rfl | hp
      · exact hlt
      · exact lt_trans hlt (hq p hp)
    · next hlt =>
      refine List.pairwise_cons.mpr ⟨fun p hp => ?_,ih hps fun p hp => hne p (List.mem_cons_of_mem q hp)⟩
      rcases (mem_insertKey ps).mp hp with rfl | hp
      · have hqne := hne q List.mem_cons_self
        show q.1<handle
        omega
      · exact hq p hp

theorem firstGap_not_mem {ps : List (Nat × Nat)} {candidate : Nat}
    (hs : ps.Pairwise fun p q => p.1<q.1) (hle : ∀ p ∈ ps,candidate≤ p.1) :
    candidate≤ firstGap ps candidate ∧ ∀ p ∈ ps,p.1≠firstGap ps candidate := by
  induction ps generalizing candidate with
  | nil => exact ⟨le_refl _,fun p hp => absurd hp List.not_mem_nil⟩
  | cons q ps ih =>
    obtain ⟨hq,hps⟩ := List.pairwise_cons.mp hs
    have hcq := hle q List.mem_cons_self
    rw [firstGap]
    split
    · next heq =>
      have hnext : ∀ p ∈ ps,candidate+1≤ p.1 := fun p hp => by
        have h := hq p hp
        omega
      obtain ⟨hge,hne⟩ := ih hps hnext
      refine ⟨by omega,fun p hp => ?_⟩
      rcases List.mem_cons.mp hp with rfl | hp
      · omega
      · exact hne p hp
    · next hne =>
      refine ⟨le_refl _,fun p hp => ?_⟩
      rcases List.mem_cons.mp hp with rfl | hp
      · exact hne
      · have h := hq p hp
        omega

/-- The handle tables of a connection: `key_service_map`, which is ordered, and
`service_key_map`. -/
structure Tables where
  keyService : List (Nat × Nat)
  serviceKey : List (Nat × Nat)
  sorted : keyService.Pairwise fun p q => p.1<q.1
  nodup : serviceKey.Nodup
  back : ∀ s h,(s,h) ∈ serviceKey → (h,s) ∈ keyService

namespace Tables

def empty : Tables := ⟨[],[],.nil,.nil,fun _ _ h => absurd h List.not_mem_nil⟩

/-- `find_service_for_key` -/
def find (t : Tables) (handle : Nat) : Option Nat :=
  (t.keyService.find? fun p => p.1==handle).map Prod.snd

theorem find_mem {t : Tables} {h s : Nat} (hf : t.find h=some s) : (h,s) ∈ t.keyService := by
  obtain ⟨p,hp,rfl⟩ := Option.map_eq_some_iff.mp hf
  have h1 := List.mem_of_find?_eq_some hp
  have h2 : p.1=h := by simpa using List.find?_some hp
  rw [← h2]
  exact h1

/-- A handle is of one record. -/
theorem unique {t : Tables} {h s s' : Nat} (hs : (h,s) ∈ t.keyService)
    (hs' : (h,s') ∈ t.keyService) : s=s' := by
  have hkeys : (t.keyService.map Prod.fst).Nodup :=
    List.Pairwise.map _ (fun _ _ h => Nat.ne_of_lt h) t.sorted
  exact (Prod.ext_iff.mp (List.inj_on_of_nodup_map hkeys hs hs' rfl)).2

/-- The record of a handle, which is in the table. -/
def record (t : Tables) (handle : Nat) : Option {s // (handle,s) ∈ t.keyService} :=
  match hf : t.find handle with
  | none => none
  | some s => some ⟨s,find_mem hf⟩

/-- A handle for the record is in the table already. -/
def has (t : Tables) (s : Nat) : Bool := t.serviceKey.any fun e => e.1==s

theorem has_iff {t : Tables} {s : Nat} : t.has s=true ↔ ∃ h,(s,h) ∈ t.serviceKey := by
  rw [has,List.any_eq_true]
  constructor
  · rintro ⟨⟨s',h⟩,hm,he⟩
    rw [← eq_of_beq he]
    exact ⟨h,hm⟩
  · rintro ⟨h,hm⟩
    exact ⟨(s,h),hm,beq_self_eq_true s⟩

/-- The handle that `allocate_service_handle` chooses. A handle is a 32 bit number: a connection
has fewer than `2^32` of them. -/
def candidate (t : Tables) : Nat := firstGap t.keyService 0

theorem candidate_new (t : Tables) (s : Nat) : (t.candidate,s) ∉ t.keyService := fun hm =>
  (firstGap_not_mem t.sorted fun p _ => Nat.zero_le p.1).2 _ hm rfl

/-- The tables after `allocate_service_handle`. -/
def allocate (t : Tables) (s : Nat) : Tables where
  keyService := insertKey t.candidate s t.keyService
  serviceKey := (s,t.candidate)::t.serviceKey
  sorted := insertKey_sorted t.sorted
    (firstGap_not_mem t.sorted fun p _ => Nat.zero_le p.1).2
  nodup := List.nodup_cons.mpr ⟨fun hm => t.candidate_new s (t.back s _ hm),t.nodup⟩
  back := by
    intro s' h hm
    rw [mem_insertKey]
    rcases List.mem_cons.mp hm with he | hm
    · exact .inl (Prod.ext (Prod.ext_iff.mp he).2 (Prod.ext_iff.mp he).1)
    · exact .inr (t.back s' h hm)

/-- `key_service_map.erase(handle)` -/
def eraseKey (t : Tables) (handle : Nat) : List (Nat × Nat) :=
  t.keyService.filter fun p => p.1!=handle

theorem mem_eraseKey {t : Tables} {handle h s : Nat} :
    (h,s) ∈ t.eraseKey handle ↔ (h,s) ∈ t.keyService ∧ h≠handle := by
  simp [eraseKey]

theorem eraseKey_sorted (t : Tables) (handle : Nat) :
    (t.eraseKey handle).Pairwise fun p q => p.1<q.1 := t.sorted.filter _

/-- The tables after `process_close_handle`, which takes out the entry of the handle from both. -/
def close (t : Tables) (handle s : Nat) (hs : (handle,s) ∈ t.keyService) : Tables where
  keyService := t.eraseKey handle
  serviceKey := t.serviceKey.erase (s,handle)
  sorted := t.eraseKey_sorted handle
  nodup := t.nodup.erase _
  back := by
    intro s' h hm
    obtain ⟨hne,hmem⟩ := t.nodup.mem_erase_iff.mp hm
    refine mem_eraseKey.mpr ⟨t.back s' h hmem,fun he => hne ?_⟩
    rw [he] at hmem ⊢
    rw [unique (t.back s' handle hmem) hs]

/-- The tables after a service is unloaded or reloaded: the entry of the handle is taken out of
one, every entry of the service out of the other. -/
def forget (t : Tables) (handle s : Nat) (hs : (handle,s) ∈ t.keyService) : Tables where
  keyService := t.eraseKey handle
  serviceKey := t.serviceKey.filter fun e => e.1!=s
  sorted := t.eraseKey_sorted handle
  nodup := t.nodup.filter _
  back := by
    intro s' h hm
    obtain ⟨hmem,hne⟩ := List.mem_filter.mp hm
    refine mem_eraseKey.mpr ⟨t.back s' h hmem,fun he => bne_iff_ne.mp hne ?_⟩
    rw [he] at hmem
    exact unique (t.back s' handle hmem) hs

end Tables

/-- The loaded services, the connections that listen to each, and the connections. A placeholder
is not counted as loaded: it is never given a handle. -/
structure Daemon where
  records : Finset Nat
  listeners : Nat → Finset Nat
  conns : Nat → Option Tables

/-- What becomes of a service that is reloaded. -/
inductive Reload
  | failed
  | kept
  | replaced (r : Nat)
  deriving DecidableEq, Repr

/-- The packets that concern handles, with what else decides about them: the record found, if any,
and whether there is memory for its handle, the dependents that hold the service, whether the
service is stopped with nothing depending on it, and how the reload ends. The other packets that
have handles only `use` them. -/
inductive HandlePacket
  | findLoad (found : Option Nat) (memory : Bool)
  | startStop (handle : Nat) (dependents : List (Nat × Bool))
  | use (handles : List Nat)
  | closeHandle (handle : Nat)
  | unload (handle : Nat) (free : Bool)
  | reload (handle : Nat) (result : Reload)
  deriving Repr

/-- A connection is made or goes away, a service is loaded, a packet comes. -/
inductive Change
  | connect (c : Nat)
  | disconnect (c : Nat)
  | load (r : Nat)
  | packet (c : Nat) (p : HandlePacket)
  deriving Repr

namespace Daemon

def initial : Daemon := ⟨∅,fun _ => ∅,fun _ => none⟩

/-- `allocate_service_handle`. If there is no memory, everything is undone. -/
def allocateServiceHandle (d : Daemon) (c : Nat) (t : Tables) (r : Nat) (memory : Bool) : Daemon :=
  if memory then
    { d with
      listeners := if t.has r then d.listeners
        else Function.update d.listeners r (insert c (d.listeners r))
      conns := Function.update d.conns c (some (t.allocate r)) }
  else d

/-- `check_dependents` -/
def checkDependents (c : Nat) : List (Nat × Bool) → Daemon → Daemon
  | [],d => d
  | (r,memory)::rs,d => checkDependents c rs <|
    (d.conns c).elim d fun t => d.allocateServiceHandle c t r memory

/-- The listeners after a connection has given up a handle for `s`, with `t` what it has left. -/
def released (d : Daemon) (c : Nat) (t : Tables) (s : Nat) : Nat → Finset Nat :=
  if t.has s then d.listeners else Function.update d.listeners s ((d.listeners s).erase c)

/-- `process_close_handle` -/
def processCloseHandle (d : Daemon) (c : Nat) (t : Tables) (handle : Nat) : Daemon :=
  match t.record handle with
  | none => d
  | some ⟨s,hs⟩ =>
    { d with
      listeners := d.released c (t.close handle s hs) s
      conns := Function.update d.conns c (some (t.close handle s hs)) }

/-- The part of `has_lone_ref` that is about listeners. -/
def loneListener (d : Daemon) (s : Nat) : Bool := (d.listeners s).card==1

/-- `process_unload_service` -/
def processUnloadService (d : Daemon) (c : Nat) (t : Tables) (handle : Nat) (free : Bool) :
    Daemon :=
  match t.record handle with
  | none => d
  | some ⟨s,hs⟩ =>
    if d.loneListener s && free then
      { records := d.records.erase s
        listeners := Function.update d.listeners s ∅
        conns := Function.update d.conns c (some (t.forget handle s hs)) }
    else d

/-- The services after `reload_service`. -/
def reloadService (d : Daemon) (s : Nat) : Reload → Daemon
  | .failed | .kept => d
  | .replaced r =>
    { d with
      records := insert r (d.records.erase s)
      listeners := Function.update (Function.update d.listeners s ∅) r ∅ }

/-- `process_reload_service` -/
def processReloadService (d : Daemon) (c : Nat) (t : Tables) (handle : Nat) (result : Reload) :
    Daemon :=
  match t.record handle with
  | none => d
  | some ⟨s,hs⟩ =>
    if d.loneListener s then
      reloadService
        { d with
          listeners := Function.update d.listeners s ((d.listeners s).erase c)
          conns := Function.update d.conns c (some (t.forget handle s hs)) } s result
    else d

/-- The records that are said to be there are there, and a new one is new. -/
def possible (d : Daemon) : HandlePacket → Bool
  | .findLoad found _ => found.all fun r => r ∈ d.records
  | .startStop _ rs => rs.all fun r => r.1 ∈ d.records
  | .reload _ (.replaced r) => r ∉ d.records
  | _ => true

def process (d : Daemon) (c : Nat) (t : Tables) : HandlePacket → Daemon
  | .findLoad found memory => found.elim d fun r => d.allocateServiceHandle c t r memory
  | .startStop handle rs => if (t.find handle).isSome then checkDependents c rs d else d
  | .use _ => d
  | .closeHandle handle => d.processCloseHandle c t handle
  | .unload handle free => d.processUnloadService c t handle free
  | .reload handle result => d.processReloadService c t handle result

def step (d : Daemon) : Change → Option Daemon
  | .connect c =>
    if (d.conns c).isNone then
      some { d with conns := Function.update d.conns c (some .empty) }
    else none
  | .disconnect c => (d.conns c).map fun t =>
    { d with
      listeners := fun s => if t.has s then (d.listeners s).erase c else d.listeners s
      conns := Function.update d.conns c none }
  | .load r =>
    if r ∈ d.records then none
    else some { d with
      records := insert r d.records
      listeners := Function.update d.listeners r ∅ }
  | .packet c p => (d.conns c).bind fun t =>
    if d.possible p then some (d.process c t p) else none

end Daemon

end Dinit
