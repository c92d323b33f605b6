import Mathlib.Algebra.Group.Int.Defs
import Dinit.Settings.Value

namespace Dinit

def intMax : Nat := 2^31-1

/-- What `value_var_subst` throws: a `service_description_exc`, or a `length_error` -/
inductive SubstFault where
  | descriptionExc (settingName : String) (excInfo : String)
  | lengthError
deriving DecidableEq

inductive AltMode where
  | none
  | minus
  | plus
deriving DecidableEq

/-- A reference, and how many characters it has behind the `$` -/
structure VarRef where
  name : List UInt8
  isArg : Bool
  wsplit : Bool
  altmode : AltMode
  colon : Bool
  alt : List UInt8
  len : Nat
deriving DecidableEq

/-- What is behind the name in braces, from the place `j` on. The token ends `left` behind the `$`. -/
def parseAlt (left : Nat) (i : List UInt8) (r : VarRef) (j : Nat) : Except String VarRef :=
  let colon := decide (i.getD j 0=58)
  let j := if colon then j+1 else j
  if colon=true ∧ i.getD j 0≠43 ∧ i.getD j 0≠45 then
    .error "invalid syntax in variable substitution"
  else if i.getD j 0=43 ∨ i.getD j 0=45 then
    let altmode := if i.getD j 0=43 then AltMode.plus else .minus
    let alt := ((i.take left).drop (j+1)).takeWhile (·!=125)
    if i.getD (j+1+alt.length) 0≠125 then .error "unmatched '\x7b' in variable substitution"
    else .ok {r with altmode := altmode,colon := colon,alt := alt,len := j+1+alt.length+1}
  else if i.getD j 0≠125 then .error "unmatched '\x7b' in variable substitution"
  else .ok {r with len := j+1}

/-- A reference in `value_var_subst`, from behind its `$` on -/
def parseRef (left : Nat) (i : List UInt8) : Except String VarRef :=
  let wsplit := decide (i.getD 0 0=47)
  let spos := if wsplit then 1 else 0
  let brace := decide (i.getD spos 0=123)
  let spos := if brace then spos+1 else spos
  let name := readConfigName true (left-spos) (i.drop spos)
  let j := spos+name.1.length
  if name.1=[] then .error "invalid/missing variable name after '$'"
  else if name.2=true ∧ name.1≠[49] then .error "only one service argument may be present"
  else
    let r : VarRef := ⟨name.1,name.2,wsplit,.none,false,[],j⟩
    if brace then parseAlt left i r j else .ok r

/-- The text a reference stands for -/
def VarRef.text (r : VarRef) (varResolve : List UInt8 → Option (List UInt8))
    (argval : Option (List UInt8)) : Except String (List UInt8) :=
  let resolved := if r.isArg then argval else varResolve r.name
  let resolvedVw := resolved.getD []
  match r.altmode with
  | .minus => .ok (if resolved=none ∨ (r.colon=true ∧ resolved=some []) then r.alt else resolvedVw)
  | .plus => .ok (if resolved≠none ∧ (r.colon=false ∨ resolved≠some []) then r.alt else resolvedVw)
  | .none =>
    if r.isArg=true ∧ argval=none then .error "missing value in argument substitution"
    else .ok resolvedVw

/-- The variables of `value_var_subst`: `first` and `second` are those of the token at `i`, and `done`
are the tokens before it. -/
structure SubstState where
  rLine : List UInt8
  xpos : Nat
  offadj : Int
  first : UInt32
  second : UInt32
  done : List (UInt32 × UInt32)
  inhibitCollapse : Bool
  doCollapse : Bool
deriving DecidableEq

/-- A number of type `unsigned` and one of type `int` -/
def adjust (p : UInt32) (offadj : Int) : UInt32 := .ofNat ((p.toNat+offadj)%2^32).toNat

/-- `line.find('$', xpos)` -/
def findDollar (line : List UInt8) (xpos : Nat) : Option Nat :=
  ((line.drop xpos).findIdx? (·==36)).map (xpos+·)

def tooLong : String := "value too long (after substitution)"

/-- The loop that splits the value `vw` of a reference at white space. The other result is
`line_len_before`. -/
def splitValue (s : SubstState) (lineLenBefore : Nat) (vw : List UInt8) :
    Except String (SubstState × Nat) :=
  match _h : vw.dropWhile (!isSpace ·) with
  | [] => .ok ({s with rLine := s.rLine++vw},lineLenBefore)
  | c::wsp =>
    let rLine := s.rLine++vw.takeWhile (!isSpace ·)
    if s.first.toNat=rLine.length ∧ s.inhibitCollapse=false then
      splitValue {s with rLine := rLine,inhibitCollapse := false} lineLenBefore
        ((c::wsp).dropWhile isSpace)
    else if intMax< rLine.length+1 then .error tooLong
    else splitValue {s with
        rLine := rLine++[32]
        offadj := s.offadj+((rLine.length+1 : Nat)-(lineLenBefore : Nat) : Int)
        first := .ofNat (rLine++[32]).length
        done := s.done++[(s.first,.ofNat rLine.length)]
        inhibitCollapse := false} (rLine++[32]).length ((c::wsp).dropWhile isSpace)
termination_by vw.length
decreasing_by
  all_goals
    have h1 : (c::wsp).length≤ vw.length := by rw [← _h]; exact (List.dropWhile_sublist _).length_le
    have h2 : isSpace c=true := by
      have hne : vw.dropWhile (!isSpace ·)≠[] := by simp [_h]
      have hnot := List.head_dropWhile_not (!isSpace ·) hne
      simpa [_h] using hnot
    have h3 : (wsp.dropWhile isSpace).length≤ wsp.length := (List.dropWhile_sublist _).length_le
    rw [List.dropWhile_cons_of_pos h2]
    simp only [List.length_cons] at h1
    omega

section
variable (line : List UInt8) (varResolve : List UInt8 → Option (List UInt8))
  (argval : Option (List UInt8))

/-- The value of a reference is in the line, which had `lineLenBefore` characters before. -/
def checkLength (s : SubstState) (lineLenBefore : Nat) : Except String SubstState :=
  if intMax< s.rLine.length then .error tooLong
  else .ok {s with offadj := s.offadj+((s.rLine.length : Nat)-(lineLenBefore : Nat) : Int)}

def substValue (s : SubstState) (wsplit : Bool) (vw : List UInt8) : Except String SubstState :=
  if wsplit then
    match splitValue s s.rLine.length vw with
    | .error e => .error e
    | .ok (t,lineLenBefore) => checkLength {t with doCollapse := !t.inhibitCollapse} lineLenBefore
  else checkLength {s with
    rLine := s.rLine++vw
    inhibitCollapse := true
    doCollapse := false} s.rLine.length

/-- What is done for the `$` at `dindx` -/
def substRef (s : SubstState) (dindx : Nat) : Except String SubstState :=
  let s := {s with rLine := s.rLine++(line.drop s.xpos).take (dindx-s.xpos)}
  let i := line.drop (dindx+1)
  if i.getD 0 0=36 then
    .ok {s with rLine := s.rLine++[36],xpos := dindx+2,offadj := s.offadj-1}
  else
    match parseRef (s.second.toNat-(dindx+1)) i with
    | .error e => .error e
    | .ok r =>
      match r.text varResolve argval with
      | .error e => .error e
      | .ok vw =>
        substValue {s with xpos := dindx+1+r.len,offadj := s.offadj-(1+r.len : Nat)} r.wsplit vw

theorem splitValue_frame {s t : SubstState} {n m : Nat} {vw : List UInt8}
    (h : splitValue s n vw=.ok (t,m)) : t.xpos=s.xpos ∧ t.second=s.second := by
  fun_induction splitValue s n vw with
  | case1 s n vw hv => cases h; exact ⟨rfl,rfl⟩
  | case2 s n vw c wsp hv rLine hc ih => exact ih h
  | case3 => cases h
  | case4 s n vw c wsp hv rLine hc hlong ih => exact ih h

theorem checkLength_ok {s t : SubstState} {n : Nat} (h : checkLength s n=.ok t) :
    s.rLine.length≤ intMax ∧
      t={s with offadj := s.offadj+((s.rLine.length : Nat)-(n : Nat) : Int)} := by
  unfold checkLength at h
  split at h
  · cases h
  · next hlen => exact ⟨Nat.not_lt.mp hlen,(Except.ok.inj h).symm⟩

theorem substValue_frame {s t : SubstState} {wsplit : Bool} {vw : List UInt8}
    (h : substValue s wsplit vw=.ok t) : t.xpos=s.xpos ∧ t.second=s.second := by
  cases wsplit with
  | false =>
    obtain ⟨-,rfl⟩ := checkLength_ok h
    exact ⟨rfl,rfl⟩
  | true =>
    simp only [substValue,if_true] at h
    split at h
    · cases h
    · next u n hv =>
      obtain ⟨-,ht⟩ := checkLength_ok h
      have hu := splitValue_frame hv
      rw [ht]
      exact hu

theorem substRef_frame {s t : SubstState} {dindx : Nat}
    (h : substRef line varResolve argval s dindx=.ok t) : dindx< t.xpos ∧ t.second=s.second := by
  unfold substRef at h
  dsimp only at h
  split at h
  · cases h
    exact ⟨by dsimp only; omega,rfl⟩
  split at h
  · cases h
  · split at h
    · cases h
    · obtain ⟨hx,hs⟩ := substValue_frame h
      exact ⟨by rw [hx]; dsimp only; omega,hs⟩

theorem findDollar_bounds {xpos dindx : Nat} (h : findDollar line xpos=some dindx) :
    xpos≤ dindx ∧ dindx< line.length := by
  obtain ⟨k,hk,rfl⟩ := Option.map_eq_some_iff.mp h
  have hlt := (List.findIdx?_eq_some_iff_findIdx_eq.mp hk).1
  rw [List.length_drop] at hlt
  omega

/-- The loop over the references in a token -/
def substToken (s : SubstState) : Except String SubstState :=
  match _hd : findDollar line s.xpos with
  | none => .ok s
  | some dindx =>
    if dindx< s.second.toNat then
      match _hr : substRef line varResolve argval s dindx with
      | .error e => .error e
      | .ok t => substToken t
    else .ok s
termination_by line.length-s.xpos
decreasing_by
  have hd := findDollar_bounds line _hd
  have hr := substRef_frame line varResolve argval _hr
  omega

/-- The loop over the tokens. Behind a token, those in front of the next `$` are only adjusted. -/
def substTokens (skipping : Bool) (s : SubstState) :
    List (UInt32 × UInt32) → Except String SubstState
  | [] => .ok s
  | p::ps =>
    if skipping=true ∧ (findDollar line s.xpos).all (p.2.toNat<·) then
      substTokens true {s with done := s.done++[(adjust p.1 s.offadj,adjust p.2 s.offadj)]} ps
    else
      match substToken line varResolve argval {s with
        first := adjust p.1 s.offadj
        second := p.2
        inhibitCollapse := false
        doCollapse := false} with
      | .error e => .error e
      | .ok t =>
        let second := adjust t.second t.offadj
        let done :=
          if t.doCollapse=true ∧ t.first=second then t.done else t.done++[(t.first,second)]
        substTokens true {t with done := done} ps

/-- `value_var_subst`: the new line and the new offsets -/
def valueVarSubst (settingName : String) (offsets : List (UInt32 × UInt32)) :
    Except SubstFault (List UInt8 × List (UInt32 × UInt32)) :=
  if findDollar line 0=none then .ok (line,offsets)
  else if intMax< line.length then .error .lengthError
  else
    match substTokens line varResolve argval false ⟨[],0,0,0,0,[],false,false⟩ offsets with
    | .error e => .error (.descriptionExc settingName e)
    | .ok s => .ok (s.rLine++line.drop s.xpos,s.done)

end

end Dinit
