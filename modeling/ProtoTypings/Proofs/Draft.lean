import Mathlib
import ProtoTypings.Draft

namespace ProtoTypings.Draft

variable {α β : Type} {d : Draft α} {a : α} {b : β}

@[simp]
theorem result_pure (a : α) : (pure a : Draft α).result = .ok a :=
  rfl

@[simp]
theorem uses_pure (a : α) : (pure a : Draft α).uses = [] :=
  rfl

theorem map_eq_bind (f : α → β) (d : Draft α) : f <$> d = d >>= fun a => pure (f a) :=
  rfl

theorem result_bind_of_ok {f : α → Draft β} (h : d.result = .ok a) :
    (d >>= f).result = (f a).result := by
  simp [bind, h]

theorem uses_bind_of_ok {f : α → Draft β} (h : d.result = .ok a) :
    (d >>= f).uses = d.uses ++ (f a).uses := by
  simp [bind, h]

theorem events_subset_bind (f : α → Draft β) : d.events ⊆ (d >>= f).events := by
  cases h : d.result <;> simp [bind, h]

theorem events_subset_bind_of_ok {f : α → Draft β} (h : d.result = .ok a) :
    (f a).events ⊆ (d >>= f).events := by
  simp [bind, h]

theorem exists_of_bind_ok {f : α → Draft β} (h : (d >>= f).result = .ok b) :
    ∃ a, d.result = .ok a ∧ (f a).result = .ok b := by
  cases hd : d.result
  case error => simp [bind, hd] at h
  case ok a  => exact ⟨a, rfl, result_bind_of_ok hd ▸ h⟩

theorem result_map (f : α → β) : (f <$> d).result = d.result.map f := by
  cases h : d.result <;> simp [map_eq_bind, bind, pure, h, Except.map]

theorem uses_map (f : α → β) : (f <$> d).uses = d.uses := by
  cases h : d.result <;> simp [map_eq_bind, bind, pure, h]

section Each

variable {f : α → Draft β} {l : List α} {bs : List β}

-- A list of drafts succeeds if all of them do, and then it has the uses of all of them.
theorem each_ok_iff : (each f l).result = .ok bs ↔ l.Forall₂ (fun a b => (f a).result = .ok b) bs := by
  induction l generalizing bs
  case nil =>
    rw [List.forall₂_nil_left_iff, each, result_pure]
    simp [eq_comm]
  case cons a rest hi =>
    rw [List.forall₂_cons_left_iff]
    constructor
    · intro h
      have ⟨b, hb, h⟩ := exists_of_bind_ok h
      have ⟨bs', hbs, h⟩ := exists_of_bind_ok h
      injection h with h
      exact ⟨b, bs', hb, hi.mp hbs, h.symm⟩
    · rintro ⟨b, bs', hb, hbs, rfl⟩
      rw [each, result_bind_of_ok hb, result_bind_of_ok (hi.mpr hbs), result_pure]

theorem mem_of_each_ok (h : (each f l).result = .ok bs) :
    b ∈ bs ↔ ∃ a ∈ l, (f a).result = .ok b := by
  induction each_ok_iff.mp h
  case nil => simp
  case cons a b' l bs hb hbs hi =>
    rw [List.mem_cons, hi (each_ok_iff.mpr hbs), List.exists_mem_cons_iff, hb, Except.ok.injEq, eq_comm]

theorem exists_of_each_ok (h : (each f l).result = .ok bs) (ha : a ∈ l) :
    ∃ b ∈ bs, (f a).result = .ok b := by
  induction each_ok_iff.mp h
  case nil => contradiction
  case cons a' b l bs hb hbs hi =>
    cases List.mem_cons.mp ha
    case inl heq => exact ⟨b, List.mem_cons_self, heq ▸ hb⟩
    case inr ha =>
      have ⟨b', hm, hb'⟩ := hi (each_ok_iff.mpr hbs) ha
      exact ⟨b', List.mem_cons_of_mem _ hm, hb'⟩

theorem each_uses (h : (each f l).result = .ok bs) : (each f l).uses = l.flatMap fun a => (f a).uses := by
  induction l generalizing bs
  case nil => rfl
  case cons a rest hi =>
    have ⟨b, hb, h⟩ := exists_of_bind_ok h
    have ⟨bs', hbs, _⟩ := exists_of_bind_ok h
    rw [each, uses_bind_of_ok hb, uses_bind_of_ok hbs, hi hbs, uses_pure, List.append_nil,
      List.flatMap_cons]

theorem exists_each_ok (h : ∀ a ∈ l, ∃ b, (f a).result = .ok b) : ∃ bs, (each f l).result = .ok bs := by
  induction l
  case nil => exact ⟨[], rfl⟩
  case cons a rest hi =>
    have ⟨b, hb⟩ := h a List.mem_cons_self
    have ⟨bs, hbs⟩ := hi fun a ha => h a (List.mem_cons_of_mem _ ha)
    exact ⟨b :: bs, each_ok_iff.mpr (.cons hb (each_ok_iff.mp hbs))⟩

end Each

-- Without a hook a value is kept as it is.
theorem consult_result_of_none {o : Offer α} (ho : o.hook = none) :
    (consult o d).result = d.result.map some := by
  cases h : d.result <;> simp [consult, h, ho, Except.map]

theorem consult_uses_of_none {o : Offer α} (ho : o.hook = none) (h : d.result = .ok a) :
    (consult o d).uses = d.uses := by
  simp [consult, h, ho]

theorem consult_of_replace {o : Offer α} {hook : α → Except String (Answer α)} {custom : α}
    (h : d.result = .ok a) (ho : o.hook = some hook) (ha : hook a = .ok (.replace custom))
    (hn : o.name custom ≠ "") : (consult o d).result = .ok (some custom) ∧
      (consult o d).uses = restrict (o.references custom).contains d.uses := by
  simp [consult, h, ho, ha, hn]

theorem exists_consult_events {o : Offer α} {hook : α → Except String (Answer α)} (h : d.result = .ok a)
    (ho : o.hook = some hook) : ∃ more, (consult o d).events = d.events ++ .asked (o.question a) :: more := by
  rcases ha : hook a with _ | answer
  case error => exact ⟨[], by simp [consult, h, ho, ha]⟩
  case ok =>
    cases answer
    case keep => exact ⟨[], by simp [consult, h, ho, ha]⟩
    case drop => exact ⟨o.dropped, by simp [consult, h, ho, ha]⟩
    case replace custom =>
      by_cases hn : o.name custom = "" <;> exact ⟨[], by simp [consult, h, ho, ha, hn]⟩

theorem asked_mem_consult {o : Offer α} {hook : α → Except String (Answer α)} (h : d.result = .ok a)
    (ho : o.hook = some hook) : .asked (o.question a) ∈ (consult o d).events := by
  obtain ⟨more, hm⟩ := exists_consult_events h ho
  simp [hm]

theorem events_subset_consult (o : Offer α) : d.events ⊆ (consult o d).events := by
  cases h : d.result
  case error => simp [consult, h]
  case ok a =>
    cases ho : o.hook
    case none => simp [consult, h, ho]
    case some hook =>
      obtain ⟨more, hm⟩ := exists_consult_events h ho
      simp [hm]

-- What can come of an offer: the value itself with all its uses, a replacement with those uses of the
-- value that it mentions, or nothing at all.
theorem consult_cases {o : Offer α} {a? : Option α} (h : (consult o d).result = .ok a?) :
    ∃ value, d.result = .ok value ∧
      ((a? = some value ∧ (consult o d).uses = d.uses) ∨
        (∃ custom, a? = some custom ∧
          (consult o d).uses = restrict (o.references custom).contains d.uses) ∨
        (a? = none ∧ (consult o d).uses = [])) := by
  cases hd : d.result
  case error => simp [consult, hd] at h
  case ok value =>
    refine ⟨value, rfl, ?_⟩
    cases ho : o.hook
    case none =>
      simp only [consult, hd, ho, Except.ok.injEq] at h ⊢
      exact .inl ⟨h.symm, trivial⟩
    case some hook =>
      rcases ha : hook value with _ | answer
      case error => simp [consult, hd, ho, ha] at h
      case ok =>
        cases answer
        case keep =>
          simp only [consult, hd, ho, ha, Except.ok.injEq] at h ⊢
          exact .inl ⟨h.symm, trivial⟩
        case drop =>
          simp only [consult, hd, ho, ha, Except.ok.injEq] at h ⊢
          exact .inr <| .inr ⟨h.symm, trivial⟩
        case replace custom =>
          by_cases hn : o.name custom = ""
          case pos => simp [consult, hd, ho, ha, hn] at h
          case neg =>
            simp only [consult, hd, ho, ha, hn, if_false, Except.ok.injEq] at h ⊢
            exact .inr <| .inl ⟨custom, h.symm, rfl⟩

end ProtoTypings.Draft
