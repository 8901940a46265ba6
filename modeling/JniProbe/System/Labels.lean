import JniProbe.System.Pairing

/-!
The serial numbers of calls. Whatever is lost or not attached, two open calls
never share a number, and a call submits at most one entry record and at most
one return record. A record is therefore identified by its kind and its call.
-/

namespace JniProbe

/-- Numbers are handed out in order, label open calls and records, and are not
used again after the return record of their call. -/
structure Labelled (m : Machine) : Prop where
  fresh : ∀ t, ∀ c ∈ m.callStacks t, c.id < m.next
  distinct : ∀ t, ((m.callStacks t).map (·.id)).Nodup
  separate : ∀ t t', ∀ c ∈ m.callStacks t, ∀ c' ∈ m.callStacks t', c.id = c'.id → t = t'
  used : ∀ r ∈ m.ring, r.call < m.next
  returned : ∀ r ∈ m.ring, r.evt.kind = 1 → ∀ t, ∀ c ∈ m.callStacks t, c.id ≠ r.call
  once : m.ring.Pairwise (fun r r' => r.evt.kind = r'.evt.kind → r.call ≠ r'.call)

theorem labelled_start : Labelled Machine.start where
  fresh t c hc := by simp [Machine.start] at hc
  distinct t := by simp [Machine.start]
  separate t t' c hc := by simp [Machine.start] at hc
  used r hr := by simp [Machine.start] at hr
  returned r hr := by simp [Machine.start] at hr
  once := by simp [Machine.start]

section Steps

variable {S : Session} {att : Attachment} {m : Machine} {tid : UInt32} {off : UInt64} {hit : Hit}

theorem Machine.next_enter : (Machine.enter S att m tid off hit).next = m.next + 1 := by
  simp only [Machine.enter]
  split <;> simp [Machine.submit]

theorem Machine.next_leave : (Machine.leave S att m tid hit).next = m.next := by
  simp only [Machine.leave]
  split
  · rfl
  · split <;> simp [Machine.submit]

/-- Entering a function submits its entry record or nothing. -/
theorem Machine.ring_enter : (Machine.enter S att m tid off hit).ring = m.ring ∨
    ∃ r, (Machine.enter S att m tid off hit).ring = m.ring ++ [r] ∧ r.evt.kind = 0 ∧
      r.call = m.next := by
  rcases Machine.enter_cases S att m tid off hit with ⟨hsame, -⟩ | ⟨raw, -, -, hring, -⟩
  · exact Or.inl hsame
  · exact Or.inr ⟨_, hring, by simp, rfl⟩

/-- Leaving a function submits its return record or nothing. -/
theorem Machine.ring_leave {call : OpenCall} {rest : List OpenCall}
    (hstack : m.callStacks tid = call :: rest) : (Machine.leave S att m tid hit).ring = m.ring ∨
    ∃ r, (Machine.leave S att m tid hit).ring = m.ring ++ [r] ∧ r.evt.kind = 1 ∧
      r.call = call.id := by
  rcases Machine.leave_cases S att m tid hit with
    ⟨hsame, -⟩ | ⟨top, below, raw, htop, -, -, hring, -⟩
  · exact Or.inl hsame
  · obtain ⟨rfl, -⟩ := List.cons.inj (hstack.symm.trans htop)
    exact Or.inr ⟨_, hring, rfl, rfl⟩

end Steps

/-- Appending a record whose kind and call are new. -/
theorem once_concat {recs : List Record} {r : Record}
    (h : recs.Pairwise (fun r r' => r.evt.kind = r'.evt.kind → r.call ≠ r'.call))
    (hnew : ∀ r' ∈ recs, r'.evt.kind = r.evt.kind → r'.call ≠ r.call) :
    (recs ++ [r]).Pairwise (fun r r' => r.evt.kind = r'.evt.kind → r.call ≠ r'.call) := by
  rw [List.pairwise_append]
  refine ⟨h, List.pairwise_singleton _ _, ?_⟩
  intro r' hr' x hx
  rw [List.mem_singleton.mp hx]
  exact hnew r' hr'

theorem Labelled.enter {m : Machine} (h : Labelled m) (S : Session) (att : Attachment)
    (tid : UInt32) (off : UInt64) (hit : Hit) : Labelled (Machine.enter S att m tid off hit) := by
  have hmem {t : UInt32} {c : OpenCall}
      (hc : c ∈ (Machine.enter S att m tid off hit).callStacks t) :
      (t = tid ∧ c.id = m.next) ∨ c ∈ m.callStacks t := by
    rw [Machine.stacks_enter] at hc
    by_cases ht : t = tid
    · subst ht
      rw [Function.update_self] at hc
      rcases List.mem_cons.mp hc with rfl | hold
      · exact Or.inl ⟨rfl, rfl⟩
      · exact Or.inr hold
    · rw [Function.update_of_ne ht] at hc
      exact Or.inr hc
  have hring {r : Record} (hr : r ∈ (Machine.enter S att m tid off hit).ring) :
      r ∈ m.ring ∨ (r.evt.kind = 0 ∧ r.call = m.next) := by
    rcases Machine.ring_enter with hsame | ⟨r', hr', hkind, hcall⟩
    · exact Or.inl (hsame ▸ hr)
    · rw [hr', List.mem_append, List.mem_singleton] at hr
      rcases hr with hold | rfl
      · exact Or.inl hold
      · exact Or.inr ⟨hkind, hcall⟩
  refine ⟨?_, ?_, ?_, ?_, ?_, ?_⟩
  · intro t c hc
    rw [Machine.next_enter]
    rcases hmem hc with ⟨-, hid⟩ | hold
    · omega
    · have hlt := h.fresh t c hold
      omega
  · intro t
    rw [Machine.stacks_enter]
    by_cases ht : t = tid
    · subst ht
      rw [Function.update_self, List.map_cons, List.nodup_cons]
      refine ⟨?_, h.distinct t⟩
      intro hin
      obtain ⟨c, hc, hid⟩ := List.mem_map.mp hin
      have hlt := h.fresh t c hc
      dsimp only at hid
      omega
    · rw [Function.update_of_ne ht]
      exact h.distinct t
  · intro t t' c hc c' hc' hid
    rcases hmem hc with ⟨rfl, hnew⟩ | hold
    · rcases hmem hc' with ⟨rfl, -⟩ | hold'
      · rfl
      · have hlt := h.fresh t' c' hold'
        omega
    · rcases hmem hc' with ⟨rfl, hnew'⟩ | hold'
      · have hlt := h.fresh t c hold
        omega
      · exact h.separate t t' c hold c' hold' hid
  · intro r hr
    rw [Machine.next_enter]
    rcases hring hr with hold | ⟨-, hcall⟩
    · have hlt := h.used r hold
      omega
    · omega
  · intro r hr hkind t c hc
    rcases hring hr with hold | ⟨hzero, -⟩
    · rcases hmem hc with ⟨-, hid⟩ | hc
      · have hlt := h.used r hold
        omega
      · exact h.returned r hold hkind t c hc
    · rw [hzero] at hkind
      cases hkind
  · rcases Machine.ring_enter with hsame | ⟨r, hr, -, hcall⟩
    · rw [hsame]
      exact h.once
    · rw [hr]
      apply once_concat h.once
      intro r' hr' _
      have hlt := h.used r' hr'
      omega

theorem Labelled.leave {m : Machine} (h : Labelled m) (S : Session) (att : Attachment)
    (tid : UInt32) (hit : Hit) : Labelled (Machine.leave S att m tid hit) := by
  cases hstack : m.callStacks tid with
  | nil =>
      rw [Machine.leave_idle hstack]
      exact h
  | cons call rest =>
      have hcall : call ∈ m.callStacks tid := by simp [hstack]
      have hmem {t : UInt32} {c : OpenCall}
          (hc : c ∈ (Machine.leave S att m tid hit).callStacks t) :
          c ∈ m.callStacks t ∧ c.id ≠ call.id := by
        rw [Machine.stacks_leave hstack] at hc
        by_cases ht : t = tid
        · subst ht
          rw [Function.update_self] at hc
          have hnodup := h.distinct t
          rw [hstack, List.map_cons, List.nodup_cons] at hnodup
          refine ⟨by simp [hstack, hc], ?_⟩
          intro hid
          exact hnodup.1 (List.mem_map.mpr ⟨c, hc, hid⟩)
        · rw [Function.update_of_ne ht] at hc
          exact ⟨hc, fun hid => ht (h.separate t tid c hc call hcall hid)⟩
      have hring {r : Record} (hr : r ∈ (Machine.leave S att m tid hit).ring) :
          r ∈ m.ring ∨ r.call = call.id := by
        rcases Machine.ring_leave hstack with hsame | ⟨r', hr', -, hid⟩
        · exact Or.inl (hsame ▸ hr)
        · rw [hr', List.mem_append, List.mem_singleton] at hr
          rcases hr with hold | rfl
          · exact Or.inl hold
          · exact Or.inr hid
      refine ⟨?_, ?_, ?_, ?_, ?_, ?_⟩
      · intro t c hc
        rw [Machine.next_leave]
        exact h.fresh t c (hmem hc).1
      · intro t
        rw [Machine.stacks_leave hstack]
        by_cases ht : t = tid
        · subst ht
          have hnodup := h.distinct t
          rw [hstack, List.map_cons, List.nodup_cons] at hnodup
          rw [Function.update_self]
          exact hnodup.2
        · rw [Function.update_of_ne ht]
          exact h.distinct t
      · intro t t' c hc c' hc' hid
        exact h.separate t t' c (hmem hc).1 c' (hmem hc').1 hid
      · intro r hr
        rw [Machine.next_leave]
        rcases hring hr with hold | hid
        · exact h.used r hold
        · rw [hid]
          exact h.fresh tid call hcall
      · intro r hr hkind t c hc
        rcases hring hr with hold | hid
        · exact h.returned r hold hkind t c (hmem hc).1
        · rw [hid]
          exact (hmem hc).2
      · rcases Machine.ring_leave hstack with hsame | ⟨r, hr, hkind, hid⟩
        · rw [hsame]
          exact h.once
        · rw [hr]
          apply once_concat h.once
          intro r' hr' hsame
          rw [hid]
          exact (h.returned r' hr' (hsame.trans hkind) tid call hcall).symm

/-- Along every run, with any attachments and losses, labels are unambiguous. -/
theorem labelled_run (S : Session) (att : Attachment) (acts : List Action) :
    Labelled (Machine.run S att acts) := by
  induction acts using List.reverseRecOn with
  | nil => exact labelled_start
  | append_singleton acts a ih =>
      rw [Machine.run_concat]
      cases a with
      | enter tid off hit => exact ih.enter S att tid off hit
      | leave tid hit => exact ih.leave S att tid hit

/-- No two return records belong to one call. -/
theorem Labelled.returns_nodup {m : Machine} (h : Labelled m) :
    ((m.ring.filter (·.evt.kind = 1)).map (·.call)).Nodup := by
  rw [List.Nodup, List.pairwise_map]
  apply (h.once.filter _).imp_of_mem
  intro r r' hr hr' hne
  rw [List.mem_filter] at hr hr'
  apply hne
  rw [of_decide_eq_true hr.2, of_decide_eq_true hr'.2]

/-- Records of one kind and one call are the same record at the same place. -/
theorem Labelled.unique {m : Machine} (h : Labelled m) {pre pre' post post' : List Record}
    {r r' : Record} (hring : m.ring = pre ++ r :: post) (hring' : m.ring = pre' ++ r' :: post')
    (hkind : r.evt.kind = r'.evt.kind) (hcall : r.call = r'.call) :
    pre = pre' ∧ r = r' ∧ post = post' := by
  have honce := h.once
  have heq : pre ++ r :: post = pre' ++ r' :: post' := hring.symm.trans hring'
  rcases List.append_eq_append_iff.mp heq with ⟨mid, rfl, hmid⟩ | ⟨mid, rfl, hmid⟩
  · cases mid with
    | nil =>
        obtain ⟨rfl, rfl⟩ : r = r' ∧ post = post' := by simpa using hmid
        exact ⟨by simp, rfl, rfl⟩
    | cons x mid =>
        obtain ⟨rfl, rfl⟩ : r = x ∧ post = mid ++ r' :: post' := by simpa using hmid
        rw [hring, List.pairwise_append, List.pairwise_cons] at honce
        exact absurd hcall (honce.2.1.1 r' (by simp) hkind)
  · cases mid with
    | nil =>
        obtain ⟨rfl, rfl⟩ : r' = r ∧ post' = post := by simpa using hmid
        exact ⟨by simp, rfl, rfl⟩
    | cons x mid =>
        obtain ⟨rfl, rfl⟩ : r' = x ∧ post' = mid ++ r :: post := by simpa using hmid
        rw [hring', List.pairwise_append, List.pairwise_cons] at honce
        exact absurd hcall.symm (honce.2.1.1 r (by simp) hkind.symm)

end JniProbe
