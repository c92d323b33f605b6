import Dinit.Framework.Fields
import Dinit.Monitor.Command

namespace Dinit

open Framework

namespace Monitor

/-- What is a blank between pieces: whitespace that is not in quotes -/
def annotate (quoted : Bool) : List UInt8 → List (Item UInt8)
  | [] => []
  | c::cs =>
    (if isSpace c && !quoted then .blank else .elem c)::annotate (if c=34 then !quoted else quoted) cs

/-- The pieces of a command -/
def pieces (cmd : List UInt8) : List (List UInt8) := Item.fields (annotate false cmd)

/-- What a piece should be expanded to, from its start to its end -/
def expansion (name : List UInt8) (value : Option (List UInt8)) (event : List UInt8) :
    List UInt8 → List UInt8
  | [] => []
  | c::part =>
    if c=37 then
      match part with
      | [] => [37]
      | c::part =>
        match specifier name value event c with
        | some text => text++expansion name value event part
        | none => (if c=34 then [37] else [37,c])++expansion name value event part
    else if c=34 then expansion name value event part
    else c::expansion name value event part

/-- The state of the quotes after a text -/
def quotedAfter (quoted : Bool) (s : List UInt8) : Bool := quoted ^^ s.count 34%2=1

theorem annotate_append (q : Bool) (s t : List UInt8) :
    annotate q (s++t)=annotate q s++annotate (quotedAfter q s) t := by
  induction s generalizing q with
  | nil => simp [annotate,quotedAfter]
  | cons c s ih =>
    have hq : quotedAfter (if c=34 then !q else q) s=quotedAfter q (c::s) := by
      unfold quotedAfter
      by_cases hc : c=34
      · rw [if_pos hc,hc,List.count_cons_self]
        obtain h | h := Nat.mod_two_eq_zero_or_one (s.count 34)
        · have hodd : (s.count 34+1)%2=1 := by omega
          cases q <;> simp [h,hodd]
        · have heven : (s.count 34+1)%2=0 := by omega
          cases q <;> simp [h,heven]
      · rw [if_neg hc,List.count_cons_of_ne (fun h => hc h)]
    rw [List.cons_append,annotate,annotate,ih,hq,List.cons_append]

theorem elems_annotate {q : Bool} {s : List UInt8} (h : ∀ x∈annotate q s,x.isBlank=false) :
    Item.elems (annotate q s)=s := by
  induction s generalizing q with
  | nil => rfl
  | cons c s ih =>
    rw [annotate] at h ⊢
    have hfirst := h _ (List.mem_cons_self ..)
    have hrest := ih fun x hx => h x (List.mem_cons_of_mem _ hx)
    by_cases hc : (isSpace c && !q)=true
    · rw [if_pos hc] at hfirst
      cases hfirst
    · rw [if_neg hc,Item.elems_elem,hrest]

theorem annotate_space {c : UInt8} (h : isSpace c=true) (s : List UInt8) :
    annotate false (c::s)=.blank::annotate false s := by
  have hne : c≠34 := by
    rintro rfl
    exact absurd h (by decide)
  rw [annotate,h,if_neg hne]
  rfl

/-- In quotes there is no blank. -/
theorem annotate_quoted {s : List UInt8} (h : 34∉s) :
    ∀ x∈annotate true s,x.isBlank=false := by
  induction s with
  | nil => intro x hx; cases hx
  | cons c s ih =>
    have hne : c≠34 := fun hc => h (by rw [hc]; exact List.mem_cons_self ..)
    rw [annotate,if_neg hne]
    intro x hx
    obtain rfl | hx := List.mem_cons.mp hx
    · simp [Item.isBlank]
    · exact ih (fun hm => h (List.mem_cons_of_mem _ hm)) x hx

theorem annotate_quote {s part : List UInt8} (hs : 34∉s)
    (h : ∀ x∈annotate false part,x.isBlank=false) :
    ∀ x∈annotate false (34::(s++34::part)),x.isBlank=false := by
  have hafter : quotedAfter true s=true := by
    unfold quotedAfter
    rw [List.count_eq_zero.mpr hs]
    rfl
  have hclose : annotate true (34::part)=.elem 34::annotate false part := rfl
  have hopen : annotate false (34::(s++34::part))=
      .elem 34::(annotate true s++.elem 34::annotate false part) := by
    show _::annotate true (s++34::part)=_
    rw [annotate_append,hafter,hclose]
    rfl
  rw [hopen]
  intro x hx
  obtain rfl | hx := List.mem_cons.mp hx
  · rfl
  · obtain hx | hx := List.mem_append.mp hx
    · exact annotate_quoted hs x hx
    · obtain rfl | hx := List.mem_cons.mp hx
      · rfl
      · exact h x hx

/-- A word goes to the next blank, and past the nul where a quote is open. -/
theorem word_spec {fuel : Nat} {c : List UInt8} (h : c.length≤ fuel) :
    (word fuel c=none ∧ c.count 34%2=1) ∨
      ∃ part rest,word fuel c=some rest ∧ c=part++rest ∧ part.count 34%2=0 ∧
        (∀ x∈annotate false part,x.isBlank=false) ∧
        (rest=[] ∨ ∃ s rest',rest=s::rest' ∧ isSpace s=true) := by
  induction fuel generalizing c with
  | zero =>
    have hnil : c=[] := List.length_eq_zero_iff.mp (Nat.le_zero.mp h)
    exact .inr ⟨[],c,rfl,rfl,rfl,fun x hx => (nomatch hx),.inl hnil⟩
  | succ fuel ih =>
    cases c with
    | nil => exact .inr ⟨[],[],rfl,rfl,rfl,fun x hx => (nomatch hx),.inl rfl⟩
    | cons ch c =>
      rw [List.length_cons] at h
      unfold word
      by_cases hspace : isSpace ch=true
      · rw [if_pos hspace]
        exact .inr ⟨[],ch::c,rfl,rfl,rfl,fun x hx => (nomatch hx),.inr ⟨ch,c,rfl,hspace⟩⟩
      · rw [if_neg hspace]
        by_cases hquote : ch=34
        · rw [if_pos hquote]
          have hcut := List.takeWhile_append_dropWhile (p := (·≠34)) (l := c)
          have hnone : 34∉c.takeWhile (·≠34) := fun hm => by
            simpa using List.mem_takeWhile_imp hm
          have hin := List.count_eq_zero.mpr hnone
          have hout : (c.takeWhile (·≠34)++c.dropWhile (·≠34)).count 34=
              (c.takeWhile (·≠34)).count 34+(c.dropWhile (·≠34)).count 34 := List.count_append
          rw [hcut,hin,Nat.zero_add] at hout
          cases hdrop : c.dropWhile (·≠34) with
          | nil =>
            rw [hdrop,List.count_nil] at hout
            refine .inl ⟨rfl,?_⟩
            rw [hquote,List.count_cons_self,hout]
          | cons d c' =>
            have hd : d=34 := by
              have hhead := List.head?_dropWhile_not (·≠34) c
              rw [hdrop] at hhead
              simpa using hhead
            subst hd
            have hlen := congrArg List.length hcut
            rw [hdrop,List.length_append,List.length_cons] at hlen
            rw [hdrop,List.count_cons_self] at hout
            rw [hdrop] at hcut
            dsimp only
            obtain ⟨hw,hodd⟩ | ⟨part,rest,hw,heq,heven,hblank,hend⟩ := ih (c := c') (by omega)
            · refine .inl ⟨hw,?_⟩
              rw [hquote,List.count_cons_self]
              omega
            · refine .inr ⟨34::(c.takeWhile (·≠34)++34::part),rest,hw,?_,?_,?_,hend⟩
              · rw [List.cons_append,List.append_assoc,List.cons_append,← heq,hcut,hquote]
              · rw [List.count_cons_self,List.count_append,hin,List.count_cons_self]
                omega
              · exact annotate_quote hnone hblank
        · rw [if_neg hquote]
          have hsp := Bool.eq_false_iff.mpr hspace
          obtain ⟨hw,hodd⟩ | ⟨part,rest,hw,heq,heven,hblank,hend⟩ := ih (c := c) (by omega)
          · exact .inl ⟨hw,by rw [List.count_cons_of_ne (fun h => hquote h)]; exact hodd⟩
          · refine .inr ⟨ch::part,rest,hw,by rw [heq]; rfl,?_,?_,hend⟩
            · rw [List.count_cons_of_ne (fun h => hquote h)]
              exact heven
            · rw [annotate,if_neg hquote,hsp]
              intro x hx
              obtain rfl | hx := List.mem_cons.mp hx
              · rfl
              · exact hblank x hx

theorem pieces_space {c : UInt8} (h : isSpace c=true) (s : List UInt8) : pieces (c::s)=pieces s := by
  unfold pieces
  rw [annotate_space h]
  exact Item.fields_blank (f := []) (by simp) _

theorem pieces_dropWhile (s : List UInt8) : pieces (s.dropWhile isSpace)=pieces s := by
  induction s with
  | nil => rfl
  | cons c s ih =>
    by_cases h : isSpace c=true
    · rw [List.dropWhile_cons_of_pos h,ih,pieces_space h]
    · rw [List.dropWhile_cons_of_neg h]

theorem count_dropWhile (s : List UInt8) : (s.dropWhile isSpace).count 34=s.count 34 := by
  induction s with
  | nil => rfl
  | cons c s ih =>
    by_cases h : isSpace c=true
    · have hne : c≠34 := by
        rintro rfl
        exact absurd h (by decide)
      rw [List.dropWhile_cons_of_pos h,ih,List.count_cons_of_ne (fun hc => hne hc)]
    · rw [List.dropWhile_cons_of_neg h]

/-- The pieces are found where each quote is closed. -/
theorem splitLoop_eq {fuel : Nat} {c : List UInt8} (h : c.length<fuel) :
    splitLoop fuel c=if c.count 34%2=0 then some (pieces c) else none := by
  induction fuel generalizing c with
  | zero => omega
  | succ fuel ih =>
    have hle : (c.dropWhile isSpace).length≤ c.length := (List.dropWhile_suffix _).length_le
    have hfirst : ∀ s rest,c.dropWhile isSpace=s::rest → isSpace s=false := by
      intro s rest hs
      have hhead := List.head_dropWhile_not (p := isSpace) (l := c) (by rw [hs]; simp)
      simpa [hs] using hhead
    rw [← count_dropWhile,← pieces_dropWhile]
    unfold splitLoop
    dsimp only
    generalize c.dropWhile isSpace=str at *
    by_cases hnil : str=[]
    · rw [if_pos hnil,hnil]
      rfl
    · rw [if_neg hnil]
      obtain ⟨hw,hodd⟩ | ⟨part,rest,hw,heq,heven,hblank,hend⟩ := word_spec (Nat.le_refl str.length)
      · rw [hw,if_neg (by omega)]
      · have hpart : part≠[] := by
          rintro rfl
          obtain rfl | ⟨s,rest',rfl,hs⟩ := hend
          · exact hnil heq
          · rw [hfirst s rest' heq] at hs
            cases hs
        have hcount : str.count 34%2=rest.count 34%2 := by
          rw [heq,List.count_append]
          omega
        have htake : str.take (str.length-rest.length)=part := by
          rw [heq,List.length_append,Nat.add_sub_cancel,List.take_left]
        have hlen : str.length=part.length+rest.length := by rw [heq,List.length_append]
        have hpos := List.length_pos_of_ne_nil hpart
        have hafter : quotedAfter false part=false := by simp [quotedAfter,heven]
        have hempty : (annotate false part).isEmpty=false := by
          cases part with
          | nil => exact absurd rfl hpart
          | cons d part => rfl
        rw [hw]
        dsimp only
        rw [htake,hcount]
        obtain rfl | ⟨s,rest',rfl,hs⟩ := hend
        · rw [if_pos rfl,heq,List.append_nil]
          unfold pieces
          rw [Item.fields_single hblank,hempty,elems_annotate hblank]
          rfl
        · have hpieces : pieces str=part::pieces (s::rest') := by
            rw [pieces_space hs,heq]
            unfold pieces
            rw [annotate_append,hafter,annotate_space hs,Item.fields_blank hblank,hempty,
              elems_annotate hblank]
            rfl
          rw [if_neg (by simp),ih (by omega),hpieces]
          split
          · rfl
          · rfl

theorem splitCommand_eq (cmd : List UInt8) :
    splitCommand cmd=if cmd.count 34%2=0 then some (pieces cmd) else none :=
  splitLoop_eq (Nat.lt_succ_self _)

section
variable (name : List UInt8) (value : Option (List UInt8)) (event : List UInt8)

theorem expansion_plain {c : UInt8} (h : c≠37) (part : List UInt8) :
    expansion name value event (c::part)=
      (if c=34 then [] else [c])++expansion name value event part := by
  rw [expansion.eq_def]
  dsimp only
  rw [if_neg h]
  split <;> rfl

/-- What a specifier gives, also one that is not known -/
def specified (c : UInt8) : List UInt8 :=
  match specifier name value event c with
  | some text => text
  | none => if c=34 then [37] else [37,c]

theorem expansion_percent (c : UInt8) (part : List UInt8) :
    expansion name value event (37::c::part)=
      specified name value event c++expansion name value event part := by
  rw [expansion.eq_def,specified]
  dsimp only
  rw [if_pos rfl]
  cases specifier name value event c with
  | none => rfl
  | some text => rfl

/-- What the loop meets: at a character that is no specifier, the output so far with the `%` has that
character at the index of the part. A quote is none of these. -/
def Kept (i : Nat) (out : List UInt8) : List UInt8 → Prop
  | [] => True
  | c::part =>
    if c=37 then
      match part with
      | [] => True
      | c::part =>
        match specifier name value event c with
        | some text => Kept (i+2) (out++text) part
        | none => c≠34 ∧ charAt (out++[37]) (i+1)=some c ∧ Kept (i+2) (out++[37,c]) part
    else if c=34 then Kept (i+1) out part
    else Kept (i+1) (out++[c]) part

variable {name value event}

/-- Nothing is taken back from the output, and nothing that should be there is left out. -/
theorem expandFrom_take {i : Nat} {out part r : List UInt8}
    (h : expandFrom name value event i out part=some r) :
    out<+: r ∧ out.length+(expansion name value event part).length≤ r.length := by
  fun_induction expandFrom name value event i out part with
  | case1 i out =>
    cases h
    exact ⟨List.prefix_refl _,by simp [expansion]⟩
  | case2 i out =>
    cases h
    exact ⟨List.prefix_append _ _,by simp [expansion]⟩
  | case3 i out c part text hspec ih =>
    obtain ⟨hpre,hlen⟩ := ih h
    refine ⟨(List.prefix_append _ _).trans hpre,?_⟩
    rw [List.length_append] at hlen
    simp only [expansion,if_pos,hspec,List.length_append]
    omega
  | case4 i out c part hspec out' hat => cases h
  | case5 i out c part hspec out' d hat ih =>
    obtain ⟨hpre,hlen⟩ := ih h
    refine ⟨((List.prefix_append _ _).trans (List.prefix_append _ _)).trans hpre,?_⟩
    rw [List.length_append] at hlen
    have hout : out'.length=out.length+1 := List.length_append
    have hle : (if c=34 then [37] else [37,c]).length≤ 2 := by split <;> simp
    simp only [expansion,if_pos,hspec,List.length_append]
    simp only [List.length_singleton] at hlen
    omega
  | case6 i out part hne ih =>
    obtain ⟨hpre,hlen⟩ := ih h
    rw [expansion_plain name value event (by decide),if_pos rfl]
    exact ⟨hpre,hlen⟩
  | case7 i out c part hne hquote ih =>
    obtain ⟨hpre,hlen⟩ := ih h
    refine ⟨(List.prefix_append _ _).trans hpre,?_⟩
    rw [List.length_append,List.length_singleton] at hlen
    rw [expansion_plain name value event hne,if_neg hquote,List.length_append,List.length_singleton]
    omega

/-- What is put out at an unknown specifier is not what should be, and stays in the output. -/
theorem expandFrom_differs {i : Nat} {out part rest : List UInt8} {c d : UInt8} (hne : d≠c) :
    expandFrom name value event i (out++[37]++[d]) part≠some (out++([37,c]++rest)) := by
  intro h
  obtain ⟨t,ht⟩ := (expandFrom_take h).1
  rw [List.append_assoc,List.append_assoc] at ht
  have heq := List.append_cancel_left ht
  simp at heq
  exact hne heq.1

theorem expandFrom_iff (i : Nat) (out part : List UInt8) :
    expandFrom name value event i out part=some (out++expansion name value event part) ↔
      Kept name value event i out part := by
  fun_induction expandFrom name value event i out part with
  | case1 i out => simp [expansion,Kept]
  | case2 i out => simp [expansion,Kept]
  | case3 i out c part text hspec ih =>
    rw [List.append_assoc] at ih
    simp only [expansion,Kept,if_pos,hspec]
    exact ih
  | case4 i out c part hspec out' hat =>
    simp only [expansion,Kept,if_pos,hspec]
    constructor
    · intro h
      cases h
    · rintro ⟨-,hc,-⟩
      rw [show charAt (out++[37]) (i+1)=none from hat] at hc
      cases hc
  | case5 i out c part hspec out' d hat ih =>
    have hat' : charAt (out++[37]) (i+1)=some d := hat
    simp only [expansion,Kept,if_pos,hspec,hat']
    by_cases hquote : c=34
    · -- the output is longer than what should be put out
      rw [if_pos hquote]
      constructor
      · intro h
        have hlen := (expandFrom_take h).2
        have hout : out'.length=out.length+1 := List.length_append
        simp only [List.length_append,List.length_singleton] at hlen
        omega
      · intro ⟨hc,_⟩
        exact absurd hquote hc
    · rw [if_neg hquote]
      by_cases hd : d=c
      · subst hd
        have hcat : out'++[d]=out++[37,d] := List.append_assoc ..
        rw [hcat,List.append_assoc] at ih
        rw [hcat,ih]
        simp [hquote]
      · constructor
        · intro h
          exact absurd h (expandFrom_differs hd)
        · intro ⟨_,hc,_⟩
          exact absurd (Option.some.inj hc) hd
  | case6 i out part hne ih =>
    rw [expansion_plain name value event (by decide),if_pos rfl,List.nil_append]
    rw [Kept.eq_def]
    exact ih
  | case7 i out c part hne hquote ih =>
    rw [expansion_plain name value event hne,if_neg hquote,← List.append_assoc]
    rw [Kept.eq_def]
    dsimp only
    rw [if_neg hne,if_neg hquote]
    exact ih

/-- A text that ends between two characters or after a specifier -/
inductive Whole : List UInt8 → Prop
  | nil : Whole []
  | plain {c : UInt8} {s : List UInt8} : c≠37 → Whole s → Whole (c::s)
  | percent {c : UInt8} {s : List UInt8} : Whole s → Whole (37::c::s)

variable (name value event) in
/-- Where the character `c` follows a `%` behind `pre`, and is no specifier: it is no quote, and the
output with the `%` has it at the index it has in the part. -/
def AsIs (i : Nat) (out pre : List UInt8) (c : UInt8) : Prop :=
  specifier name value event c=none →
    c≠34 ∧ charAt (out++expansion name value event pre++[37]) (i+pre.length+1)=some c

variable (name value event) in
/-- All specifiers of the part that are not known are put out as they are. -/
def Literal (part : List UInt8) : Prop :=
  ∀ pre c post,part=pre++37::c::post → Whole pre → AsIs name value event 0 [] pre c

theorem asIs_percent {i : Nat} {out pre : List UInt8} {c d : UInt8} :
    AsIs name value event i out (37::c::pre) d ↔
      AsIs name value event (i+2) (out++specified name value event c) pre d := by
  have hindex : i+(37::c::pre).length+1=i+2+pre.length+1 := by
    rw [List.length_cons,List.length_cons]
    omega
  unfold AsIs
  rw [expansion_percent,hindex,← List.append_assoc]

theorem asIs_plain {i : Nat} {out pre : List UInt8} {c d : UInt8} (hc : c≠37) :
    AsIs name value event i out (c::pre) d ↔
      AsIs name value event (i+1) (out++if c=34 then [] else [c]) pre d := by
  have hindex : i+(c::pre).length+1=i+1+pre.length+1 := by
    rw [List.length_cons]
    omega
  unfold AsIs
  rw [expansion_plain name value event hc,hindex,← List.append_assoc]

/-- A condition on what follows a whole text in the part, for a part that begins with a specifier -/
theorem whole_percent {P : List UInt8 → UInt8 → Prop} {d : UInt8} {part : List UInt8} :
    (∀ pre c post,37::d::part=pre++37::c::post → Whole pre → P pre c) ↔
      P [] d ∧ ∀ pre c post,part=pre++37::c::post → Whole pre → P (37::d::pre) c := by
  constructor
  · intro h
    refine ⟨h [] d part rfl .nil,fun pre c post heq hpre => ?_⟩
    exact h (37::d::pre) c post (by rw [heq]; rfl) hpre.percent
  · intro ⟨hfirst,hrest⟩ pre c post heq hpre
    cases hpre with
    | nil =>
      cases heq
      exact hfirst
    | plain hne hs =>
      obtain ⟨rfl,-⟩ := List.cons.inj heq
      exact absurd rfl hne
    | @percent e s hs =>
      obtain ⟨rfl,htail⟩ := List.cons.inj (List.cons.inj heq).2
      exact hrest s c post htail hs

theorem whole_plain {P : List UInt8 → UInt8 → Prop} {d : UInt8} {part : List UInt8} (hd : d≠37) :
    (∀ pre c post,d::part=pre++37::c::post → Whole pre → P pre c) ↔
      ∀ pre c post,part=pre++37::c::post → Whole pre → P (d::pre) c := by
  constructor
  · intro h pre c post heq hpre
    exact h (d::pre) c post (by rw [heq]; rfl) (hpre.plain hd)
  · intro h pre c post heq hpre
    cases hpre with
    | nil =>
      cases heq
      exact absurd rfl hd
    | @plain e s hne hs =>
      obtain ⟨rfl,htail⟩ := List.cons.inj heq
      exact h s c post htail hs
    | percent hs =>
      cases heq
      exact absurd rfl hd

theorem kept_iff (i : Nat) (out part : List UInt8) :
    Kept name value event i out part ↔
      ∀ pre c post,part=pre++37::c::post → Whole pre → AsIs name value event i out pre c := by
  fun_induction Kept name value event i out part with
  | case1 i out => simp
  | case2 i out =>
    refine iff_of_true trivial fun pre c post heq => ?_
    have hlen := congrArg List.length heq
    simp at hlen
    omega
  | case3 i out c part text hspec ih =>
    have htext : specified name value event c=text := by rw [specified,hspec]
    have hknown : AsIs name value event i out [] c := fun hnone => by
      rw [hspec] at hnone
      cases hnone
    rw [ih,whole_percent,and_iff_right hknown]
    simp only [asIs_percent,htext]
  | case4 i out c part hspec ih =>
    rw [ih,whole_percent]
    have hfirst : AsIs name value event i out [] c ↔ c≠34 ∧ charAt (out++[37]) (i+1)=some c := by
      unfold AsIs
      rw [expansion,List.append_nil]
      exact ⟨fun h => h hspec,fun h _ => h⟩
    rw [hfirst]
    simp only [asIs_percent]
    constructor
    · intro ⟨hc,hat,hrest⟩
      refine ⟨⟨hc,hat⟩,?_⟩
      rw [specified,hspec]
      dsimp only
      rw [if_neg hc]
      exact hrest
    · intro ⟨⟨hc,hat⟩,hrest⟩
      rw [specified,hspec] at hrest
      dsimp only at hrest
      rw [if_neg hc] at hrest
      exact ⟨hc,hat,hrest⟩
  | case5 i out part hne ih =>
    rw [ih,whole_plain hne]
    simp only [asIs_plain hne,if_pos,List.append_nil]
  | case6 i out c part hne hquote ih =>
    rw [ih,whole_plain hne]
    simp only [asIs_plain hne,if_neg hquote]

theorem expand_iff (part : List UInt8) :
    expand name value event part=some (expansion name value event part) ↔
      Literal name value event part := (expandFrom_iff 0 [] part).trans (kept_iff 0 [] part)

/-- A command does what its template says exactly when each quote is closed, and what follows a `%`
in a piece is a specifier or is put out as it is. -/
theorem command_template (name : List UInt8) (value : Option (List UInt8)) (event cmd : List UInt8) :
    (splitCommand cmd=some (pieces cmd) ∧
        ∀ part∈pieces cmd,expand name value event part=some (expansion name value event part)) ↔
      cmd.count 34%2=0 ∧ ∀ part∈pieces cmd,Literal name value event part := by
  have hsplit : splitCommand cmd=some (pieces cmd) ↔ cmd.count 34%2=0 := by
    rw [splitCommand_eq]
    split
    · next heven => exact iff_of_true rfl heven
    · next hodd => exact iff_of_false (by simp) hodd
  exact and_congr hsplit (forall₂_congr fun part _ => expand_iff part)

/-- A quote that is not closed, and `%x`: a nul is put out for the `x`. -/
theorem template_lost :
    splitCommand [34]≠some (pieces [34]) ∧ splitCommand [37,120]=some (pieces [37,120]) ∧
      ¬∀ part∈pieces [37,120],expand [] none [] part=some (expansion [] none [] part) := by
  have hpieces : pieces [37,120]=[[37,120]] := by decide
  have hdiffers : expand [] none [] [37,120]≠some (expansion [] none [] [37,120]) := by decide
  refine ⟨by decide,by decide,fun h => hdiffers (h _ ?_)⟩
  rw [hpieces]
  exact List.mem_singleton_self _

end

end Monitor

end Dinit
