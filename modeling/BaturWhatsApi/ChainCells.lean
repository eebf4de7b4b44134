import BaturWhatsApi.KeyChains

/-!
# A chain key in a shared cell

A cell holds a chain key. Any number of draws read it, hand out its message key,
and write its successor back, each at its own pace; a draw that finds the cell
empty starts a chain of its own. Every write has a number, and a draw remembers
the write it has read.

What a draw or the cell can still hand out is a final piece of a chain. The
invariant keeps these pieces apart from each other and from everything handed out,
except that a draw shares its piece with the cell it was read from. It is preserved
as long as no value is read that another draw has read and is holding or has used.
-/
namespace BaturWhatsApi.KeyChains

variable {κ : Type*}

structure Draw (κ : Type*) where
  source : Option ℕ
  chain : κ
  handed : Bool

structure Cell (κ : Type*) where
  value : Option (ℕ × κ)
  writes : ℕ
  draws : ℕ → Option (Draw κ)
  /-- The keys handed out, each with the write it was drawn from. -/
  out : List (Option ℕ × κ)

def Cell.empty : Cell κ := ⟨none,0,fun _ => none,[]⟩

def Cell.load (i : ℕ) (source : Option ℕ) (c : κ) (s : Cell κ) : Cell κ :=
  {s with draws := Function.update s.draws i (some ⟨source,c,false⟩)}

def Cell.drop (i : ℕ) (s : Cell κ) : Cell κ := {s with draws := Function.update s.draws i none}

def Cell.stop (s : Cell κ) : Cell κ := {s with draws := fun _ => none}

variable (C : Chains κ)

def Cell.hand (i : ℕ) (d : Draw κ) (s : Cell κ) : Cell κ :=
  {s with
   draws := Function.update s.draws i (some {d with handed := true})
   out := s.out++[(d.source,C.key d.chain)]}

def Cell.write (d : Draw κ) (s : Cell κ) : Cell κ :=
  {s with value := some (s.writes,C.next d.chain),writes := s.writes+1}

/-- Where the keys begin that a draw can still lead to. -/
def Draw.rest (d : Draw κ) : κ := if d.handed then C.next d.chain else d.chain

def Apart (c c' : κ) : Prop := ∀ k, C.Later c k → ¬C.Later c' k

def Ahead (c : κ) (out : List (Option ℕ × κ)) : Prop := ∀ x ∈ out, ¬C.Later c x.2

def Reached (Old : κ → Prop) (c : κ) : Prop := ∃ o n, Old o ∧ c = C.next^[n] o

/-- The pieces are apart; `Old` are the origins so far. -/
structure Cell.Separated (Old : κ → Prop) (s : Cell κ) : Prop where
  nodup : (s.out.map Prod.snd).Nodup
  origins : ∀ o, Old o → C.Origin o
  out_traced : ∀ x ∈ s.out, ∃ o, Old o ∧ C.Later o x.2
  out_source : ∀ x ∈ s.out, ∀ v, x.1 = some v → v < s.writes
  draw_traced : ∀ i d, s.draws i = some d → Reached C Old d.chain
  draw_source : ∀ i d, s.draws i = some d → ∀ v, d.source = some v → v < s.writes
  draw_ahead : ∀ i d, s.draws i = some d → Ahead C (d.rest C) s.out
  apart : ∀ i j d e, i ≠ j → s.draws i = some d → s.draws j = some e →
    Apart C (d.rest C) (e.rest C)
  value_source : ∀ v c, s.value = some (v,c) → v < s.writes
  value_traced : ∀ v c, s.value = some (v,c) → Reached C Old c
  value_ahead : ∀ v c, s.value = some (v,c) → (∀ x ∈ s.out, x.1 ≠ some v) → Ahead C c s.out
  value_apart : ∀ v c, s.value = some (v,c) → (∀ x ∈ s.out, x.1 ≠ some v) →
    ∀ i d, s.draws i = some d → d.source ≠ some v → Apart C c (d.rest C)

variable {C}

theorem Apart.symm {c c' : κ} (h : Apart C c c') : Apart C c' c := fun k hk hk' => h k hk' hk

theorem Apart.next {c c' : κ} (h : Apart C c c') : Apart C (C.next c) c' :=
  fun k hk => h k (later_of_next hk)

theorem Apart.key {c c' : κ} (h : Apart C c c') : ¬C.Later c' (C.key c) := h _ ⟨0,rfl⟩

theorem Ahead.next {c : κ} {out : List (Option ℕ × κ)} (h : Ahead C c out) :
    Ahead C (C.next c) out := fun x hx hk => h x hx (later_of_next hk)

theorem Ahead.append {c k : κ} {out : List (Option ℕ × κ)} (h : Ahead C c out) (source : Option ℕ)
    (hk : ¬C.Later c k) : Ahead C c (out++[(source,k)]) := by
  intro x hx
  rcases List.mem_append.mp hx with hx | hx
  · exact h x hx
  · rw [List.mem_singleton.mp hx]
    exact hk

theorem Reached.next {Old : κ → Prop} {c : κ} (h : Reached C Old c) : Reached C Old (C.next c) := by
  obtain ⟨o,n,ho,rfl⟩ := h
  exact ⟨o,n+1,ho,(Function.iterate_succ_apply' _ _ _).symm⟩

theorem Reached.mono {Old Old' : κ → Prop} {c : κ} (h : Reached C Old c)
    (hsub : ∀ o, Old o → Old' o) : Reached C Old' c := by
  obtain ⟨o,n,ho,hc⟩ := h
  exact ⟨o,n,hsub o ho,hc⟩

theorem Reached.key {Old : κ → Prop} {c : κ} (h : Reached C Old c) :
    ∃ o, Old o ∧ C.Later o (C.key c) := by
  obtain ⟨o,n,ho,rfl⟩ := h
  exact ⟨o,ho,n,rfl⟩

theorem Reached.later {Old : κ → Prop} {c k : κ} (h : Reached C Old c) (hk : C.Later c k) :
    ∃ o, Old o ∧ C.Later o k := by
  obtain ⟨o,n,ho,rfl⟩ := h
  obtain ⟨m,rfl⟩ := hk
  exact ⟨o,ho,m+n,by rw [Function.iterate_add_apply]⟩

theorem Draw.reached_rest {Old : κ → Prop} {d : Draw κ} (h : Reached C Old d.chain) :
    Reached C Old (d.rest C) := by
  unfold Draw.rest
  split_ifs
  · exact h.next
  · exact h

theorem Draw.rest_of_not_handed {d : Draw κ} (h : d.handed = false) : d.rest C = d.chain :=
  if_neg (by rw [h]; decide)

theorem Draw.rest_of_handed {d : Draw κ} (h : d.handed = true) : d.rest C = C.next d.chain :=
  if_pos h

namespace Cell.Separated

variable {Old Old' : κ → Prop} {s : Cell κ}

theorem empty (horigins : ∀ o, Old o → C.Origin o) : Cell.empty.Separated C Old :=
  {nodup := List.nodup_nil
   origins := horigins
   out_traced := fun _ h => (nomatch h)
   out_source := fun _ h => (nomatch h)
   draw_traced := fun _ _ h => (nomatch h)
   draw_source := fun _ _ h => (nomatch h)
   draw_ahead := fun _ _ h => (nomatch h)
   apart := fun _ _ _ _ _ h => (nomatch h)
   value_source := fun _ _ h => (nomatch h)
   value_traced := fun _ _ h => (nomatch h)
   value_ahead := fun _ _ h => (nomatch h)
   value_apart := fun _ _ h => (nomatch h)}

theorem weaken (h : s.Separated C Old) (hsub : ∀ o, Old o → Old' o)
    (horigins : ∀ o, Old' o → C.Origin o) : s.Separated C Old' :=
  {h with
   origins := horigins
   out_traced := fun x hx => (h.out_traced x hx).imp fun _ ho => ⟨hsub _ ho.1,ho.2⟩
   draw_traced := fun i d hd => (h.draw_traced i d hd).mono hsub
   value_traced := fun v c hv => (h.value_traced v c hv).mono hsub}

/-- Fewer draws keep what is left apart. -/
theorem restrict (h : s.Separated C Old) {draws : ℕ → Option (Draw κ)}
    (hsub : ∀ i d, draws i = some d → s.draws i = some d) :
    Separated C Old {s with draws := draws} :=
  {h with
   draw_traced := fun i d hd => h.draw_traced i d (hsub i d hd)
   draw_source := fun i d hd => h.draw_source i d (hsub i d hd)
   draw_ahead := fun i d hd => h.draw_ahead i d (hsub i d hd)
   apart := fun i j d e hij hd he => h.apart i j d e hij (hsub i d hd) (hsub j e he)
   value_apart := fun v c hv hout i d hd => h.value_apart v c hv hout i d (hsub i d hd)}

theorem drop (h : s.Separated C Old) (i : ℕ) : (s.drop i).Separated C Old := by
  refine h.restrict fun j d hd => ?_
  rcases update_eq_some hd with ⟨_,hnone⟩ | ⟨_,hd⟩
  · cases hnone
  · exact hd

theorem stop (h : s.Separated C Old) : s.stop.Separated C Old :=
  h.restrict fun _ _ hd => (nomatch hd)

/-- A new draw whose piece is apart from everything but the cell it was read from. -/
theorem load (h : s.Separated C Old) (i : ℕ) {source : Option ℕ} {c : κ}
    (hsource : ∀ v, source = some v → v < s.writes) (hc : Reached C Old c)
    (hahead : Ahead C c s.out) (hdraws : ∀ j d, s.draws j = some d → Apart C c (d.rest C))
    (hvalue : ∀ v c', s.value = some (v,c') → source ≠ some v → Apart C c' c) :
    (s.load i source c).Separated C Old := by
  have hcases : ∀ j d, (s.load i source c).draws j = some d →
      (j = i ∧ d = ⟨source,c,false⟩) ∨ (j ≠ i ∧ s.draws j = some d) := by
    intro j d hd
    rcases update_eq_some hd with ⟨hj,hd⟩ | hd
    · exact .inl ⟨hj,(Option.some.inj hd).symm⟩
    · exact .inr hd
  refine {h with draw_traced := ?_,draw_source := ?_,draw_ahead := ?_,apart := ?_,value_apart := ?_}
  · intro j d hd
    rcases hcases j d hd with ⟨_,rfl⟩ | ⟨_,hd⟩
    · exact hc
    · exact h.draw_traced j d hd
  · intro j d hd
    rcases hcases j d hd with ⟨_,rfl⟩ | ⟨_,hd⟩
    · exact hsource
    · exact h.draw_source j d hd
  · intro j d hd
    rcases hcases j d hd with ⟨_,rfl⟩ | ⟨_,hd⟩
    · exact hahead
    · exact h.draw_ahead j d hd
  · intro j j' d d' hne hd hd'
    rcases hcases j d hd with ⟨hj,rfl⟩ | ⟨_,hd⟩
    · rcases hcases j' d' hd' with ⟨hj',_⟩ | ⟨_,hd'⟩
      · exact absurd (hj.trans hj'.symm) hne
      · exact hdraws j' d' hd'
    · rcases hcases j' d' hd' with ⟨_,rfl⟩ | ⟨_,hd'⟩
      · exact (hdraws j d hd).symm
      · exact h.apart j j' d d' hne hd hd'
  · intro v c' hv hout j d hd hne
    rcases hcases j d hd with ⟨_,rfl⟩ | ⟨_,hd⟩
    · exact hvalue v c' hv hne
    · exact h.value_apart v c' hv hout j d hd hne

/-- A draw reads a value that no draw is holding or has used. -/
theorem read (h : s.Separated C Old) (i : ℕ) {v : ℕ} {c : κ} (hv : s.value = some (v,c))
    (hout : ∀ x ∈ s.out, x.1 ≠ some v)
    (hdraws : ∀ j d, s.draws j = some d → d.source ≠ some v) :
    (s.load i (some v) c).Separated C Old := by
  refine h.load i ?_ (h.value_traced v c hv) (h.value_ahead v c hv hout) ?_ ?_
  · intro v' hv'
    rw [← Option.some.inj hv']
    exact h.value_source v c hv
  · intro j d hd
    exact h.value_apart v c hv hout j d hd (hdraws j d hd)
  · intro v' c' hv' hne
    rw [hv] at hv'
    cases hv'
    exact absurd rfl hne

/-- A draw starts a chain with a new origin. -/
theorem start (h : s.Separated C Old) (i : ℕ) {c : κ} (hsub : ∀ o, Old o → Old' o)
    (horigins : ∀ o, Old' o → C.Origin o) (hc : Old' c) (hnew : ¬Old c) :
    (s.load i none c).Separated C Old' := by
  have hlater : ∀ k, (∃ o, Old o ∧ C.Later o k) → ¬C.Later c k := by
    rintro k ⟨o,ho,hk⟩ hck
    exact hnew (origin_unique (h.origins o ho) (horigins c hc) hk hck ▸ ho)
  refine (h.weaken hsub horigins).load i (fun _ hv => (nomatch hv)) ⟨c,0,hc,rfl⟩ ?_ ?_ ?_
  · intro x hx
    exact hlater x.2 (h.out_traced x hx)
  · intro j d hd k hk hk'
    exact hlater k ((Draw.reached_rest (h.draw_traced j d hd)).later hk') hk
  · intro v c' hv _ k hk
    exact hlater k ((h.value_traced v c' hv).later hk)

/-- A draw hands out its key. -/
theorem hand (h : s.Separated C Old) {i : ℕ} {d : Draw κ} (hd : s.draws i = some d)
    (hh : d.handed = false) : (s.hand C i d).Separated C Old := by
  have hrest := d.rest_of_not_handed (C := C) hh
  have hcases : ∀ j e, (s.hand C i d).draws j = some e →
      (j = i ∧ e = {d with handed := true}) ∨ (j ≠ i ∧ s.draws j = some e) := by
    intro j e he
    rcases update_eq_some he with ⟨hj,he⟩ | he
    · exact .inl ⟨hj,(Option.some.inj he).symm⟩
    · exact .inr he
  have hahead : Ahead C d.chain s.out := hrest ▸ h.draw_ahead i d hd
  have hapart : ∀ j e, j ≠ i → s.draws j = some e → Apart C d.chain (e.rest C) := by
    intro j e hj he
    have ha := h.apart i j d e hj.symm hd he
    rwa [hrest] at ha
  have hkeep : ∀ v, (∀ x ∈ (s.hand C i d).out, x.1 ≠ some v) →
      (∀ x ∈ s.out, x.1 ≠ some v) ∧ d.source ≠ some v := by
    intro v hout
    exact ⟨fun x hx => hout x (List.mem_append_left _ hx),
      hout (d.source,C.key d.chain) (List.mem_append_right _ (List.mem_singleton_self _))⟩
  have hvalue : ∀ v c, s.value = some (v,c) → (∀ x ∈ (s.hand C i d).out, x.1 ≠ some v) →
      Apart C c d.chain := by
    intro v c hv hout
    obtain ⟨hout,hsource⟩ := hkeep v hout
    have ha := h.value_apart v c hv hout i d hd hsource
    rwa [hrest] at ha
  refine {h with nodup := ?_,out_traced := ?_,out_source := ?_,draw_traced := ?_,draw_source := ?_,
                 draw_ahead := ?_,apart := ?_,value_ahead := ?_,value_apart := ?_}
  · change ((s.out++[(d.source,C.key d.chain)]).map Prod.snd).Nodup
    rw [List.map_append]
    refine h.nodup.append (List.nodup_singleton _) (List.disjoint_singleton.mpr ?_)
    intro hk
    obtain ⟨x,hx,hxk⟩ := List.mem_map.mp hk
    exact hahead x hx ⟨0,hxk⟩
  · intro x hx
    rcases List.mem_append.mp hx with hx | hx
    · exact h.out_traced x hx
    · rw [List.mem_singleton.mp hx]
      exact (h.draw_traced i d hd).key
  · intro x hx
    rcases List.mem_append.mp hx with hx | hx
    · exact h.out_source x hx
    · rw [List.mem_singleton.mp hx]
      exact h.draw_source i d hd
  · intro j e he
    rcases hcases j e he with ⟨_,rfl⟩ | ⟨_,he⟩
    · exact h.draw_traced i d hd
    · exact h.draw_traced j e he
  · intro j e he
    rcases hcases j e he with ⟨_,rfl⟩ | ⟨_,he⟩
    · exact h.draw_source i d hd
    · exact h.draw_source j e he
  · intro j e he
    rcases hcases j e he with ⟨_,rfl⟩ | ⟨hj,he⟩
    · exact hahead.next.append _ (not_later_next _)
    · exact (h.draw_ahead j e he).append _ (hapart j e hj he).key
  · intro j j' e e' hne he he'
    rcases hcases j e he with ⟨hj,rfl⟩ | ⟨hj,he⟩
    · rcases hcases j' e' he' with ⟨hj',_⟩ | ⟨hj',he'⟩
      · exact absurd (hj.trans hj'.symm) hne
      · exact (hapart j' e' hj' he').next
    · rcases hcases j' e' he' with ⟨_,rfl⟩ | ⟨_,he'⟩
      · exact (hapart j e hj he).next.symm
      · exact h.apart j j' e e' hne he he'
  · intro v c hv hout
    exact (h.value_ahead v c hv (hkeep v hout).1).append _ (hvalue v c hv hout).symm.key
  · intro v c hv hout j e he hsource
    rcases hcases j e he with ⟨_,rfl⟩ | ⟨_,he⟩
    · exact (hvalue v c hv hout).symm.next.symm
    · exact h.value_apart v c hv (hkeep v hout).1 j e he hsource

/-- A draw that has handed out its key writes the successor back and ends. -/
theorem write (h : s.Separated C Old) {i : ℕ} {d : Draw κ} (hd : s.draws i = some d)
    (hh : d.handed = true) : ((s.drop i).write C d).Separated C Old := by
  have hrest := d.rest_of_handed (C := C) hh
  have hdrop := h.drop i
  have hlt : ∀ {v}, v < s.writes → v < s.writes+1 := Nat.lt_succ_of_lt
  refine {hdrop with out_source := ?_,draw_source := ?_,value_source := ?_,value_traced := ?_,
                     value_ahead := ?_,value_apart := ?_}
  · exact fun x hx v hv => hlt (h.out_source x hx v hv)
  · exact fun j e he v hv => hlt (hdrop.draw_source j e he v hv)
  · rintro v c ⟨⟩
    exact Nat.lt_succ_self _
  · rintro v c ⟨⟩
    exact (h.draw_traced i d hd).next
  · rintro v c ⟨⟩ _
    exact hrest ▸ h.draw_ahead i d hd
  · rintro v c ⟨⟩ _ j e he _
    rcases update_eq_some he with ⟨_,hnone⟩ | ⟨hj,he⟩
    · cases hnone
    · exact hrest ▸ h.apart i j d e hj.symm hd he

end Cell.Separated

end BaturWhatsApi.KeyChains
