import StudyTips.Loop

/-!
# Runs that keep to a protocol

A protocol says which call is allowed when, and what one holds behind it. A computation
that logs its calls keeps to the protocol from what it holds, if every call of it is
allowed in turn. `Keeps` is a triple of this kind, whose last part speaks of the value
and of what is held at the end; its rules follow the computation: `keeps_pure`,
`Keeps.emit`, `Keeps.bind`, and `keeps_run` for loops.
-/

universe u v w

namespace Protocol

variable {E : Type u} {X Y : Type v} {H : Type w} (allowed : H → E → Option H)

/-- What is held behind some calls; none if one of them is not allowed. -/
def after : H → List E → Option H
  | h, [] => some h
  | h, e :: es => (allowed h e).bind fun h' => after h' es

/-- **A computation keeps to the protocol** from what is held, and ends so. -/
def Keeps (h : H) (m : Traced E X) (Q : X → H → Prop) : Prop :=
  ∃ h', after allowed h m.log = some h' ∧ Q m.val h'

variable {allowed}

/-- Calls are made one behind the other. -/
theorem after_append {h h' : H} {es es' : List E} (hes : after allowed h es = some h') :
    after allowed h (es ++ es') = after allowed h' es' := by
  induction es generalizing h with
  | nil => rw [Option.some.inj hes, List.nil_append]
  | cons e es ih =>
    obtain ⟨h₁, he, hrest⟩ := Option.bind_eq_some_iff.mp hes
    rw [List.cons_append, after, he, Option.bind_some, ih hrest]

variable {h : H} {m : Traced E X} {Q : X → H → Prop}

theorem keeps_pure {x : X} (hQ : Q x h) : Keeps allowed h (pure x) Q := ⟨h, rfl, hQ⟩

theorem keeps_emit {Q : PUnit → H → Prop} {e : E} {h' : H} (he : allowed h e = some h')
    (hQ : Q ⟨⟩ h') : Keeps allowed h (.emit e) Q :=
  ⟨h', by rw [Traced.emit_log, after, he]; rfl, hQ⟩

/-- What is guaranteed at the end may be weakened. -/
theorem Keeps.mono {R : X → H → Prop} (hm : Keeps allowed h m Q) (hQR : ∀ x h', Q x h' → R x h') :
    Keeps allowed h m R := by
  obtain ⟨h', hlog, hQ⟩ := hm
  exact ⟨h', hlog, hQR _ _ hQ⟩

/-- A sequence keeps to the protocol if each part does. -/
theorem Keeps.bind {f : X → Traced E Y} {R : Y → H → Prop} (hm : Keeps allowed h m Q)
    (hf : ∀ x h', Q x h' → Keeps allowed h' (f x) R) : Keeps allowed h (m >>= f) R := by
  obtain ⟨h', hlog, hQ⟩ := hm
  obtain ⟨h'', hlog', hR⟩ := hf _ _ hQ
  exact ⟨h'', by rw [Traced.bind_log, after_append hlog, hlog'], hR⟩

/-- A call keeps to the protocol if it is allowed and the rest keeps to it. -/
theorem Keeps.emit {e : E} (h' : H) {f : PUnit → Traced E Y} {R : Y → H → Prop}
    (he : allowed h e = some h') (hf : Keeps allowed h' (f ⟨⟩) R) :
    Keeps allowed h (.emit e >>= f) R :=
  (keeps_emit (Q := fun _ h'' => h'' = h') he rfl).bind (by rintro _ _ rfl; exact hf)

/-- **A loop keeps to the protocol** if every turn does, from what is held at the head of the
loop. -/
theorem keeps_run {S R : Type v} {turn : S → Traced E (S ⊕ R)} (Inv : S → H → Prop)
    {Post : Option R → H → Prop} (hspent : ∀ s h, Inv s h → Post none h)
    (hturn : ∀ s h, Inv s h → Keeps allowed h (turn s) fun r h' =>
      match r with
      | .inl s' => Inv s' h'
      | .inr r => Post (some r) h') :
    ∀ (n : ℕ) {s : S} {h : H}, Inv s h → Keeps allowed h (Loop.run turn n s) Post
  | 0, _, _, hs => keeps_pure (hspent _ _ hs)
  | n + 1, s, h, hs => by
    refine (hturn s h hs).bind fun r h' hr => ?_
    rcases r with s' | r
    · exact keeps_run Inv hspent hturn n hr
    · exact keeps_pure hr

end Protocol
