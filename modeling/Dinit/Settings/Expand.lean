import Dinit.Framework.Fields
import Dinit.Settings.Subst

namespace Dinit

open Framework

/-- The text of a token: as it stands, or the value of a reference, which may be split -/
inductive Piece where
  | text (t : List UInt8)
  | whole (t : List UInt8)
  | split (t : List UInt8)
deriving DecidableEq

/-- A reference that is not split keeps its word. -/
def Piece.items : Piece → List (Item UInt8)
  | .text t => t.map .elem
  | .whole t => .mark::t.map .elem
  | .split t => t.map fun c => if isSpace c then .blank else .elem c

def Piece.isSplit : Piece → Bool
  | .split _ => true
  | _ => false

section
variable (varResolve : List UInt8 → Option (List UInt8)) (argval : Option (List UInt8))

/-- The pieces of a token: `$$` stands for `$`. -/
def pieces (tok : List UInt8) : Except String (List Piece) :=
  match tok with
  | [] => .ok []
  | c::t =>
    if c≠36 then (pieces t).map (.text [c]::·)
    else if t.head?=some 36 then (pieces t.tail).map (.text [36]::·)
    else do
      let r ← parseRef t.length t
      let vw ← r.text varResolve argval
      (pieces (t.drop r.len)).map ((if r.wsplit then .split vw else .whole vw)::·)
termination_by tok.length
decreasing_by
  · simp
  · simp only [List.length_tail,List.length_cons]; omega
  · simp only [List.length_drop,List.length_cons]; omega

theorem pieces_nil : pieces varResolve argval []=.ok [] := by rw [pieces]

theorem pieces_literal {c : UInt8} (h : c≠36) (t : List UInt8) :
    pieces varResolve argval (c::t)=(pieces varResolve argval t).map (.text [c]::·) := by
  rw [pieces,if_pos h]

theorem pieces_dollar (t : List UInt8) :
    pieces varResolve argval (36::36::t)=(pieces varResolve argval t).map (.text [36]::·) := by
  rw [pieces]
  rfl

theorem pieces_ref {t vw : List UInt8} {r : VarRef} (h : t.head?≠some 36)
    (hr : parseRef t.length t=.ok r) (hv : r.text varResolve argval=.ok vw) :
    pieces varResolve argval (36::t)=(pieces varResolve argval (t.drop r.len)).map
      ((if r.wsplit then .split vw else .whole vw)::·) := by
  rw [pieces,if_neg (by simp),if_neg h,hr]
  simp only [bind,Except.bind,hv]

/-- The words of a token. With something to be split, they are what is between the white space in it,
and a word that only has nothing in it disappears. Otherwise there is one word. -/
def wordsOf (ps : List Piece) : List (List UInt8) :=
  if ps.any Piece.isSplit then Item.fields (ps.flatMap Piece.items)
  else [Item.elems (ps.flatMap Piece.items)]

/-- The expansion of a token, by itself -/
def expandToken (tok : List UInt8) : Except String (List (List UInt8)) :=
  (pieces varResolve argval tok).map wordsOf

end

/-- What is behind a token: nothing, or a blank -/
def EndsToken (rest : List UInt8) : Prop := rest=[] ∨ ∃ t,rest=32::t

section
variable {tok rest : List UInt8}

theorem getD_stop (h : EndsToken rest) {k : Nat} (hk : k≤ tok.length) {x : UInt8} (h0 : x≠0)
    (h32 : x≠32) : ((tok++rest).getD k 0=x) = (tok.getD k 0=x) := by
  by_cases hlt : k< tok.length
  · simp [List.getD,List.getElem?_append_left hlt]
  · obtain rfl : k=tok.length := by omega
    obtain rfl | ⟨t,rfl⟩ := h
    · simp
    · simp [List.getD,Ne.symm h0,Ne.symm h32]

theorem lt_of_getD {k : Nat} {x : UInt8} (h : tok.getD k 0=x) (h0 : x≠0) : k< tok.length := by
  by_contra hge
  rw [List.getD_eq_getElem?_getD,List.getElem?_eq_none (by omega)] at h
  exact h0 h.symm

theorem readConfigName_stop (h : EndsToken rest) (t : List UInt8) :
    readConfigName true t.length (t++rest)=readConfigName true t.length t ∧
      (readConfigName true t.length t).1.length≤ t.length := by
  have hrest : isNumeral (rest.headD 0)=false := by
    obtain rfl | ⟨u,rfl⟩ := h <;> rfl
  have hnum : rest.takeWhile isNumeral=[] := by
    cases rest with
    | nil => rfl
    | cons c u => simpa using hrest
  have htake : (t++rest).takeWhile isNumeral=t.takeWhile isNumeral := by
    induction t with
    | nil => exact hnum
    | cons c t ih => by_cases hc : isNumeral c=true <;> simp [hc,ih]
  unfold readConfigName
  cases t with
  | nil =>
    have h0 : isNumeral 0=false := rfl
    simp only [List.nil_append,List.headD_nil,hrest,h0]
    simp
  | cons c t =>
    rw [htake]
    simp only [List.cons_append,List.headD_cons,Bool.true_and,List.length_cons,List.take_succ_cons,
      List.take_left,List.take_length,true_and]
    split
    · exact (List.takeWhile_sublist _).length_le
    split
    · simp
    · exact (List.takeWhile_sublist _).length_le

theorem parseAlt_stop (h : EndsToken rest) (r : VarRef) {j : Nat} (hj : j≤ tok.length) :
    parseAlt tok.length (tok++rest) r j=parseAlt tok.length tok r j ∧
      ∀ r',parseAlt tok.length tok r j=.ok r' → r'.len≤ tok.length := by
  have hj1 : (if decide (tok.getD j 0=58) then j+1 else j)≤ tok.length := by
    by_cases h58 : tok.getD j 0=58
    · have hlt := lt_of_getD h58 (by decide)
      simp only [h58,decide_true,if_true]; omega
    · rw [if_neg (by rw [decide_eq_true_eq]; exact h58)]
      exact hj
  unfold parseAlt
  simp only [getD_stop h hj (x := 58) (by decide) (by decide)]
  generalize (if decide (tok.getD j 0=58) then j+1 else j)=k at hj1
  simp only [ne_eq,getD_stop h hj1 (x := 43) (by decide) (by decide),
    getD_stop h hj1 (x := 45) (by decide) (by decide),
    getD_stop h hj1 (x := 125) (by decide) (by decide),List.take_left,List.take_length]
  have hend (alt : k< tok.length) :
      k+1+((tok.drop (k+1)).takeWhile (· != 125)).length≤ tok.length := by
    have hle := (List.takeWhile_sublist (l := tok.drop (k+1)) (· != 125)).length_le
    rw [List.length_drop] at hle
    omega
  by_cases halt : tok.getD k 0=43 ∨ tok.getD k 0=45
  · have hlt : k< tok.length := by
      obtain h1 | h1 := halt
      · exact lt_of_getD h1 (by decide)
      · exact lt_of_getD h1 (by decide)
    have hbound := hend hlt
    simp only [getD_stop h hbound (x := 125) (by decide) (by decide)]
    simp only [halt,if_true]
    refine ⟨trivial,fun r' hr => ?_⟩
    split at hr
    · cases hr
    · split at hr
      · cases hr
      · next h125 =>
        have hl := lt_of_getD (not_not.mp h125) (by decide)
        cases hr
        dsimp only
        omega
  · simp only [halt,if_false]
    refine ⟨trivial,fun r' hr => ?_⟩
    split at hr
    · cases hr
    split at hr
    · cases hr
    · next h125 =>
      have hl := lt_of_getD (not_not.mp h125) (by decide)
      cases hr
      dsimp only
      omega

/-- A reference is read from its token alone, and ends in it. -/
theorem parseRef_stop (h : EndsToken rest) :
    parseRef tok.length (tok++rest)=parseRef tok.length tok ∧
      ∀ r,parseRef tok.length tok=.ok r → r.len≤ tok.length := by
  have hslash : ((tok++rest).getD 0 0=47)=(tok.getD 0 0=47) :=
    getD_stop h (Nat.zero_le _) (by decide) (by decide)
  have hspos : (if decide (tok.getD 0 0=47) then 1 else 0)≤ tok.length := by
    by_cases h47 : tok.getD 0 0=47
    · have hlt := lt_of_getD h47 (by decide)
      simp only [h47,decide_true,if_true]; omega
    · rw [if_neg (by rw [decide_eq_true_eq]; exact h47)]
      exact Nat.zero_le _
  unfold parseRef
  simp only [hslash]
  generalize (if decide (tok.getD 0 0=47) then 1 else 0)=k at hspos
  have hbrace := getD_stop h hspos (x := 123) (by decide) (by decide)
  have hnpos : (if decide (tok.getD k 0=123) then k+1 else k)≤ tok.length := by
    by_cases h123 : tok.getD k 0=123
    · have hlt := lt_of_getD h123 (by decide)
      simp only [h123,decide_true,if_true]; omega
    · rw [if_neg (by rw [decide_eq_true_eq]; exact h123)]
      exact hspos
  simp only [hbrace]
  generalize (if decide (tok.getD k 0=123) then k+1 else k)=n at hnpos
  obtain ⟨hname,hlen⟩ := readConfigName_stop h (tok.drop n)
  rw [List.length_drop] at hname hlen
  rw [List.drop_append_of_le_length hnpos,hname]
  generalize readConfigName true (tok.length-n) (tok.drop n)=name at hlen
  split
  · exact ⟨rfl,nofun⟩
  split
  · exact ⟨rfl,nofun⟩
  split
  · exact parseAlt_stop h _ (by omega)
  · refine ⟨rfl,fun r hr => ?_⟩
    cases hr
    dsimp only
    omega

end

end Dinit
