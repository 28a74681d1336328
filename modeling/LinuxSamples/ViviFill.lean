import LinuxSamples.Vivi

/-!
Where the virtual video driver writes when it fills a buffer.

The rows are copied with the dimensions recorded in the buffer, and stay inside it. The text
is drawn with the dimensions of the device, which may have changed since the buffer was
prepared: the format can be set as long as no frames are generated. All writes stay inside
exactly when the text of every frame fits, and it does if the format is set only while no
buffer is queued.
-/

namespace LinuxSamples.Vivi

open LinuxSamples.Run LinuxSamples.CString

def Fill.Inside (f : Fill) : Prop :=
  (∀ r ∈ f.rows, r.dst + r.len ≤ f.size) ∧ ∀ t ∈ f.text, t.1 + t.2 ≤ f.size

/-- Every byte written so far lies in its buffer. -/
def Inside (s : St) : Prop := ∀ f ∈ s.fills, f.Inside

/-- Each line of text that is short enough to be drawn ends inside a buffer of `size` bytes. -/
def TextFits (s : St) (size : ℕ) (ms : BitVec 32) : Prop :=
  ∀ t ∈ overlay s ms, t.1 + 16 < s.height → 16 + t.2.length * 8 < s.width →
    (t.1 + 15) * s.width * 2 + 16 * 2 + 14 * t.2.length + 2 ≤ size

def Careful (s : St) : Act → Prop
  | .tick true true elapsed =>
    ∀ i ∈ s.active.head?, TextFits s (s.bufs i).size (s.ms + elapsed)
  | _ => True

instance (s : St) (size : ℕ) (ms : BitVec 32) : Decidable (TextFits s size ms) :=
  inferInstanceAs (Decidable (∀ t ∈ overlay s ms, _))

instance (s : St) (a : Act) : Decidable (Careful s a) := by
  unfold Careful
  split <;> infer_instance

/-! ### One frame -/

lemma genText_inside_iff {width height y x size : ℕ} {text : List Char} (hne : text ≠ []) :
    (∀ t ∈ genText width height y x text, t.1 + t.2 ≤ size) ↔
      (y + 16 < height → x + text.length * 8 < width →
        (y + 15) * width * 2 + x * 2 + 14 * text.length + 2 ≤ size) := by
  have hpos := List.length_pos_iff.mpr hne
  by_cases hdraw : y + 16 ≥ height ∨ x + text.length * 8 ≥ width
  · rw [genText, if_pos hdraw]
    constructor
    · intro _ hy hx
      omega
    · intro _ t ht
      cases ht
  · rw [genText, if_neg hdraw]
    constructor
    · intro h _ _
      -- the last point of the last character in the last line
      have hmem : ((y + 15) * width * 2 + x * 2 + (7 * (text.length - 1) + 6) * 2, 4) ∈
          (List.range' y 16).flatMap fun line => (List.range text.length).flatMap fun c =>
            (List.range 7).map fun i => (line * width * 2 + x * 2 + (7 * c + i) * 2, 4) := by
        refine List.mem_flatMap.mpr ⟨y + 15, List.mem_range'_1.mpr (by omega), ?_⟩
        refine List.mem_flatMap.mpr ⟨text.length - 1, List.mem_range.mpr (by omega), ?_⟩
        exact List.mem_map.mpr ⟨6, List.mem_range.mpr (by omega), rfl⟩
      have hend := h _ hmem
      simp only at hend
      omega
    · intro h t ht
      obtain ⟨line, hline, ht⟩ := List.mem_flatMap.mp ht
      obtain ⟨c, hc, ht⟩ := List.mem_flatMap.mp ht
      obtain ⟨i, hi, rfl⟩ := List.mem_map.mp ht
      have hline := List.mem_range'_1.mp hline
      have hc := List.mem_range.mp hc
      have hi := List.mem_range.mp hi
      have hfits := h (by omega) (by omega)
      have hrow : line * width ≤ (y + 15) * width := Nat.mul_le_mul_right _ (by omega)
      simp only
      omega

lemma ne_nil_of_mem_overlay {s : St} {ms : BitVec 32} {t : ℕ × List Char}
    (h : t ∈ overlay s ms) : t.2 ≠ [] := by
  simp only [overlay, List.mem_cons, List.not_mem_nil, or_false] at h
  rcases h with rfl | rfl | rfl | rfl <;> simp [snprintf]

lemma rows_inside {s : St} {b : Buf} (h : b.size = b.width * b.height * 2) (ms : BitVec 32) :
    ∀ r ∈ (frame s b ms).rows, r.dst + r.len ≤ b.size := by
  intro r hr
  obtain ⟨k, hk, rfl⟩ := List.mem_map.mp hr
  have hk := List.mem_range.mp hk
  calc k * b.width * 2 + b.width * 2
      = (k + 1) * b.width * 2 := by ring
    _ ≤ b.height * b.width * 2 := by gcongr; exact hk
    _ = b.size := by rw [h, Nat.mul_comm b.height]

lemma frame_inside_iff {s : St} {b : Buf} (h : b.size = b.width * b.height * 2) (ms : BitVec 32) :
    (frame s b ms).Inside ↔ TextFits s b.size ms := by
  constructor
  · rintro ⟨-, htext⟩ t ht
    refine (genText_inside_iff (ne_nil_of_mem_overlay ht)).mp fun p hp => ?_
    exact htext p (List.mem_flatMap.mpr ⟨t, ht, hp⟩)
  · intro hfits
    refine ⟨rows_inside h ms, fun p hp => ?_⟩
    obtain ⟨t, ht, hp⟩ := List.mem_flatMap.mp hp
    exact (genText_inside_iff (ne_nil_of_mem_overlay ht)).mpr (hfits t ht) p hp

lemma textFits_of_le {s : St} {size : ℕ} (h : s.width * s.height * 2 ≤ size) (ms : BitVec 32) :
    TextFits s size ms := by
  intro t _ hy hx
  calc (t.1 + 15) * s.width * 2 + 16 * 2 + 14 * t.2.length + 2
      ≤ (t.1 + 15) * s.width * 2 + s.width * 2 := by omega
    _ = s.width * (t.1 + 16) * 2 := by ring
    _ ≤ s.width * s.height * 2 := by gcongr
    _ ≤ size := h

/-! ### Buffers that may be filled -/

def Buf.Usable (b : Buf) : Prop := b.state = .prepared ∨ b.state = .queued

/-- The application may queue the buffer. -/
def Buf.Free (b : Buf) : Prop := b.state = .needsInit ∨ b.state = .idle

lemma Buf.Free.not_usable {b : Buf} (h : b.Free) : ¬ b.Usable := by
  rcases h with h | h <;> simp [Buf.Usable, h]

/-- The buffers that may be filled have dimensions and a size that satisfy `Q`, and are among
those the application has queued; the thread sees queued buffers, each once. -/
structure Ready (Q : ℕ → ℕ → ℕ → Prop) (s : St) : Prop where
  sized : ∀ i, (s.bufs i).Usable → Q (s.bufs i).width (s.bufs i).height (s.bufs i).size
  streamed : ∀ i, (s.bufs i).Usable → i ∈ s.stream
  held : ∀ i ∈ s.stream, ¬ (s.bufs i).Free
  distinct : s.stream.Nodup
  active : ∀ i ∈ s.active, (s.bufs i).state = .queued
  nodup : s.active.Nodup

namespace Ready

variable {Q : ℕ → ℕ → ℕ → Prop} {s : St} {i : ℕ}

lemma not_mem_stream (h : Ready Q s) (hi : (s.bufs i).Free) : i ∉ s.stream :=
  fun hm => h.held i hm hi

lemma not_mem_active (h : Ready Q s) (hi : (s.bufs i).state ≠ .queued) : i ∉ s.active :=
  fun hm => hi (h.active i hm)

/-- **One buffer changes.** The lists may gain or lose the buffer `i`, and nothing else. -/
lemma of_update {s' : St} {b : Buf} (h : Ready Q s) (hbufs : s'.bufs = Function.update s.bufs i b)
    (hstream : ∀ j, j ≠ i → (j ∈ s'.stream ↔ j ∈ s.stream)) (hdistinct : s'.stream.Nodup)
    (hactive : ∀ j, j ≠ i → j ∈ s'.active → j ∈ s.active) (hnodup : s'.active.Nodup)
    (hsized : b.Usable → Q b.width b.height b.size) (hstreamed : b.Usable → i ∈ s'.stream)
    (hheld : i ∈ s'.stream → ¬ b.Free) (hqueued : i ∈ s'.active → b.state = .queued) :
    Ready Q s' := by
  have hself : s'.bufs i = b := by rw [hbufs, Function.update_self]
  have hother : ∀ j, j ≠ i → s'.bufs j = s.bufs j := fun j hji => by
    rw [hbufs, Function.update_of_ne hji]
  refine ⟨fun j hj => ?_, fun j hj => ?_, fun j hj => ?_, hdistinct, fun j hj => ?_, hnodup⟩
  all_goals by_cases hji : j = i
  · subst hji
    rw [hself] at hj ⊢
    exact hsized hj
  · rw [hother j hji] at hj ⊢
    exact h.sized j hj
  · subst hji
    rw [hself] at hj
    exact hstreamed hj
  · rw [hother j hji] at hj
    exact (hstream j hji).mpr (h.streamed j hj)
  · subst hji
    rw [hself]
    exact hheld hj
  · rw [hother j hji]
    exact h.held j ((hstream j hji).mp hj)
  · subst hji
    rw [hself]
    exact hqueued hj
  · rw [hother j hji]
    exact h.active j (hactive j hji hj)

lemma mem_append_singleton_iff {l : List ℕ} {j : ℕ} (hji : j ≠ i) : j ∈ l ++ [i] ↔ j ∈ l := by
  simp [hji]

lemma update {b : Buf} (h : Ready Q s) (hi : (s.bufs i).Free) (hb : b.Free) :
    Ready Q { s with bufs := Function.update s.bufs i b } := by
  refine h.of_update rfl (fun _ _ => Iff.rfl) h.distinct (fun _ _ hj => hj) h.nodup
    (fun hu => absurd hu hb.not_usable) (fun hu => absurd hu hb.not_usable) (fun hm => ?_)
    fun hm => ?_
  · exact absurd hm (h.not_mem_stream hi)
  · exact absurd (Or.inr (h.active i hm)) hi.not_usable

lemma prepare {b : Buf} (h : Ready Q s) (hi : (s.bufs i).Free) (hb : b.state = .prepared)
    (hQ : Q b.width b.height b.size) :
    Ready Q { s with bufs := Function.update s.bufs i b, stream := s.stream ++ [i] } := by
  refine h.of_update rfl (fun j hji => mem_append_singleton_iff hji) ?_ (fun _ _ hj => hj) h.nodup
    (fun _ => hQ) (fun _ => List.mem_append_right _ (List.mem_singleton_self i)) (fun _ => ?_)
    fun hm => ?_
  · exact List.Nodup.append h.distinct (List.nodup_singleton i)
      (List.disjoint_singleton.mpr (h.not_mem_stream hi))
  · simp [Buf.Free, hb]
  · exact absurd (Or.inr (h.active i hm)) hi.not_usable

lemma queue (h : Ready Q s) (hi : (s.bufs i).state = .prepared) : Ready Q (bufferQueue s i) := by
  have hout : i ∉ s.active := h.not_mem_active (by rw [hi]; decide)
  refine h.of_update rfl (fun _ _ => Iff.rfl) h.distinct
    (fun j hji hj => (mem_append_singleton_iff hji).mp hj) ?_ (fun _ => h.sized i (Or.inl hi))
    (fun _ => h.streamed i (Or.inl hi)) (fun _ => ?_) fun _ => rfl
  · exact List.Nodup.append h.nodup (List.nodup_singleton i) (List.disjoint_singleton.mpr hout)
  · simp [Buf.Free]

lemma foldl_queue {l : List ℕ} (h : Ready Q s) (hl : ∀ i ∈ l, (s.bufs i).state = .prepared)
    (hnodup : l.Nodup) : Ready Q (l.foldl bufferQueue s) := by
  induction l generalizing s with
  | nil => exact h
  | cons i l ih =>
    obtain ⟨hi, hnodup⟩ := List.nodup_cons.mp hnodup
    refine ih (h.queue (hl i List.mem_cons_self)) (fun j hj => ?_) hnodup
    have hji : j ≠ i := ne_of_mem_of_not_mem hj hi
    simpa only [bufferQueue, Function.update_of_ne hji] using hl j (List.mem_cons_of_mem i hj)

lemma cancel (h : Ready Q s) : Ready Q (queueCancel s) := by
  have hnone : ∀ j, ¬ ((queueCancel s).bufs j).Usable := fun j => Buf.Free.not_usable (Or.inl rfl)
  refine ⟨fun j hj => absurd hj (hnone j), fun j hj => absurd hj (hnone j), fun j hj => ?_,
    List.nodup_nil, fun j hj => ?_, h.nodup.filter _⟩
  · cases hj
  · obtain ⟨hmem, hstate⟩ := List.mem_filter.mp hj
    exact absurd (h.active j hmem) (of_decide_eq_true hstate)

lemma start (h : Ready Q s) (file : ℕ) (kthread : Bool) :
    Ready Q (startGenerating s file kthread) := by
  unfold startGenerating
  split
  · exact h
  · exact ⟨h.sized, h.streamed, h.held, h.distinct, h.active, h.nodup⟩

lemma stop (h : Ready Q s) (file : ℕ) : Ready Q (stopGenerating s file) := by
  have hoff : Ready Q { s with generating := false } :=
    ⟨h.sized, h.streamed, h.held, h.distinct, h.active, h.nodup⟩
  unfold stopGenerating
  split
  · simp only
    split
    · exact hoff.cancel
    · exact hoff
  · exact h

lemma streamon (h : Ready Q s) (file : ℕ) (kthread : Bool) :
    Ready Q (streamon s file kthread).1 := by
  unfold Vivi.streamon
  split
  · exact h
  refine Ready.start ?_ file kthread
  split
  · exact h
  · have hon : Ready Q { s with streaming := true } :=
      ⟨h.sized, h.streamed, h.held, h.distinct, h.active, h.nodup⟩
    refine hon.foldl_queue (fun i hi => ?_) (h.distinct.filter _)
    exact of_decide_eq_true (List.mem_filter.mp hi).2

lemma streamoff (h : Ready Q s) (file : ℕ) : Ready Q (streamoff s file).1 := by
  unfold Vivi.streamoff
  split
  · exact h.cancel.stop file
  · exact h

lemma bufferPrepare_cases (s : St) (b : Buf) (iolock : Bool) :
    ((bufferPrepare s b iolock).2 ≠ 0 ∧
      ((bufferPrepare s b iolock).1.state = b.state ∨
        (bufferPrepare s b iolock).1.state = .needsInit)) ∨
    (bufferPrepare s b iolock).2 = 0 ∧ (bufferPrepare s b iolock).1 =
      { b with
        state := .prepared
        size := s.width * s.height * 2
        width := s.width
        height := s.height } := by
  unfold bufferPrepare
  split
  · exact Or.inl ⟨by simp [EINVAL], Or.inl rfl⟩
  · simp only
    split
    · exact Or.inl ⟨by simp [EINVAL], Or.inl rfl⟩
    · split
      · exact Or.inl ⟨by simp [ENOMEM], Or.inr rfl⟩
      · exact Or.inr ⟨rfl, rfl⟩

lemma qbuf (h : Ready Q s) (hQ : Q s.width s.height (s.width * s.height * 2)) (i : ℕ)
    (iolock : Bool) : Ready Q (qbuf s i iolock).1 := by
  unfold Vivi.qbuf
  split
  · exact h
  split
  · rename_i hfree
    rcases bufferPrepare_cases s (s.bufs i) iolock with ⟨hr, hstate⟩ | ⟨hr, hb⟩
    · simp only [if_pos hr]
      refine h.update hfree ?_
      rcases hstate with hstate | hstate
      · exact hfree.imp hstate.trans hstate.trans
      · exact Or.inl hstate
    · have hstate : (bufferPrepare s (s.bufs i) iolock).1.state = .prepared := by rw [hb]
      have hprepared := h.prepare hfree hstate (by rw [hb]; exact hQ)
      simp only [hr, ne_eq, not_true_eq_false, if_false]
      split
      · refine hprepared.queue ?_
        simpa only [Function.update_self] using hstate
      · exact hprepared
  · exact h

lemma dqbuf (h : Ready Q s) (i : ℕ) : Ready Q (dqbuf s i).1 := by
  unfold Vivi.dqbuf
  split
  · rename_i hdone
    have hidle : ({ s.bufs i with state := .idle } : Buf).Free := Or.inr rfl
    refine h.of_update rfl (fun j hji => List.mem_erase_of_ne hji) (h.distinct.erase i)
      (fun _ _ hj => hj) h.nodup (fun hu => absurd hu hidle.not_usable)
      (fun hu => absurd hu hidle.not_usable) (fun hm => ?_) fun hm => ?_
    · exact absurd hm h.distinct.not_mem_erase
    · exact absurd ((h.active i hm).symm.trans hdone) (by decide)
  · exact h

lemma fill (h : Ready Q s) {rest : List ℕ} (hactive : s.active = i :: rest)
    (elapsed : BitVec 32) : Ready Q (viviFillbuff { s with active := rest } i elapsed) := by
  have hnodup := h.nodup
  rw [hactive] at hnodup
  obtain ⟨hout, hnodup⟩ := List.nodup_cons.mp hnodup
  have hdone : ¬ ({ s.bufs i with state := .done } : Buf).Usable := by simp [Buf.Usable]
  refine h.of_update rfl (fun _ _ => Iff.rfl) h.distinct (fun j _ hj => ?_) hnodup
    (fun hu => absurd hu hdone) (fun hu => absurd hu hdone) (fun _ => ?_) fun hm => ?_
  · rw [hactive]
    exact List.mem_cons_of_mem i hj
  · simp [Buf.Free]
  · exact absurd hm hout

lemma tick (h : Ready Q s) (waiting vbuf : Bool) (elapsed : BitVec 32) :
    Ready Q (viviThreadTick s waiting vbuf elapsed) := by
  unfold viviThreadTick
  split
  · exact h
  · rename_i i rest hactive
    split
    · split
      · exact h.fill hactive elapsed
      · have hnodup := h.nodup
        rw [hactive] at hnodup
        refine ⟨h.sized, h.streamed, h.held, h.distinct, fun j hj => ?_,
          (List.nodup_cons.mp hnodup).2⟩
        exact h.active j (hactive ▸ List.mem_cons_of_mem i hj)
    · exact h

end Ready

lemma ready_init (Q : ℕ → ℕ → ℕ → Prop) : Ready Q init := by
  have hfree : ∀ i, (init.bufs i).Free := fun i => Or.inl rfl
  refine ⟨fun i hi => absurd hi (hfree i).not_usable, fun i hi => absurd hi (hfree i).not_usable,
    fun i hi => ?_, List.nodup_nil, fun i hi => ?_, List.nodup_nil⟩
  · cases hi
  · cases hi

/-- **One step**, with a property of the buffers that a newly prepared one has. -/
lemma ready_step {Q : ℕ → ℕ → ℕ → Prop} {s s' : St} {a : Act} (h : Ready Q s)
    (hQ : Q s.width s.height (s.width * s.height * 2)) (hstep : step s a = some s') :
    Ready Q s' := by
  cases a with
  | sFmt known width height =>
    cases hstep
    unfold sFmt
    split
    · exact h
    · split
      · exact h
      · exact ⟨h.sized, h.streamed, h.held, h.distinct, h.active, h.nodup⟩
  | sInput i =>
    cases hstep
    unfold sInput
    split
    · exact h
    · exact ⟨h.sized, h.streamed, h.held, h.distinct, h.active, h.nodup⟩
  | sCtrl c value =>
    cases hstep
    unfold sCtrl
    split
    · exact h
    · exact ⟨h.sized, h.streamed, h.held, h.distinct, h.active, h.nodup⟩
  | mmap i baddr bsize =>
    obtain ⟨hfree, hstep⟩ := Option.ite_none_right_eq_some.mp hstep
    cases hstep
    exact h.update (Or.inl hfree) (Or.inl hfree)
  | qbuf i iolock =>
    cases hstep
    exact h.qbuf hQ i iolock
  | dqbuf i =>
    cases hstep
    exact h.dqbuf i
  | streamon file kthread =>
    cases hstep
    exact h.streamon file kthread
  | streamoff file =>
    cases hstep
    exact h.streamoff file
  | tick waiting vbuf elapsed =>
    obtain ⟨-, hstep⟩ := Option.ite_none_right_eq_some.mp hstep
    cases hstep
    exact h.tick waiting vbuf elapsed

/-! ### What else a step changes -/

/-- The calls of the queue change neither the format nor the frames drawn. -/
def SameView (s s' : St) : Prop :=
  s'.width = s.width ∧ s'.height = s.height ∧ s'.fills = s.fills

lemma sameView_foldl_queue (l : List ℕ) (s : St) : SameView s (l.foldl bufferQueue s) := by
  induction l generalizing s with
  | nil => exact ⟨rfl, rfl, rfl⟩
  | cons i l ih => exact ih (bufferQueue s i)

lemma sameView_start (s : St) (file : ℕ) (kthread : Bool) :
    SameView s (startGenerating s file kthread) := by
  unfold startGenerating
  split <;> exact ⟨rfl, rfl, rfl⟩

lemma SameView.trans {s s' s'' : St} (h : SameView s s') (h' : SameView s' s'') :
    SameView s s'' :=
  ⟨h'.1.trans h.1, h'.2.1.trans h.2.1, h'.2.2.trans h.2.2⟩

lemma sameView_streamon (s : St) (file : ℕ) (kthread : Bool) :
    SameView s (streamon s file kthread).1 := by
  unfold streamon
  split
  · exact ⟨rfl, rfl, rfl⟩
  refine SameView.trans ?_ (sameView_start _ file kthread)
  split
  · exact ⟨rfl, rfl, rfl⟩
  · exact sameView_foldl_queue _ { s with streaming := true }

lemma sameView_streamoff (s : St) (file : ℕ) : SameView s (streamoff s file).1 := by
  unfold streamoff
  split
  · unfold stopGenerating
    split
    · simp only
      split <;> exact ⟨rfl, rfl, rfl⟩
    · exact ⟨rfl, rfl, rfl⟩
  · exact ⟨rfl, rfl, rfl⟩

lemma sameView_qbuf (s : St) (i : ℕ) (iolock : Bool) : SameView s (qbuf s i iolock).1 := by
  unfold qbuf
  split
  · exact ⟨rfl, rfl, rfl⟩
  split
  · simp only
    split
    · exact ⟨rfl, rfl, rfl⟩
    · simp only
      split <;> exact ⟨rfl, rfl, rfl⟩
  · exact ⟨rfl, rfl, rfl⟩

lemma sameView_dqbuf (s : St) (i : ℕ) : SameView s (dqbuf s i).1 := by
  unfold dqbuf
  split <;> exact ⟨rfl, rfl, rfl⟩

/-- **What a step does to the view**: nothing, or it sets the format, or it draws a frame. -/
lemma view_step {s s' : St} {a : Act} (h : step s a = some s') :
    SameView s s' ∨
    (∃ known width height, a = .sFmt known width height ∧ s'.fills = s.fills) ∨
    ∃ elapsed i rest, a = .tick true true elapsed ∧ s.active = i :: rest ∧
      s'.width = s.width ∧ s'.height = s.height ∧
      s'.fills = s.fills ++ [frame s (s.bufs i) (s.ms + elapsed)] := by
  cases a with
  | sFmt known width height =>
    cases h
    refine Or.inr (Or.inl ⟨known, width, height, rfl, ?_⟩)
    unfold sFmt
    split
    · rfl
    · split <;> rfl
  | sInput i =>
    cases h
    refine Or.inl ?_
    unfold sInput
    split <;> exact ⟨rfl, rfl, rfl⟩
  | sCtrl c value =>
    cases h
    refine Or.inl ?_
    unfold sCtrl
    split <;> exact ⟨rfl, rfl, rfl⟩
  | mmap i baddr bsize =>
    obtain ⟨-, h⟩ := Option.ite_none_right_eq_some.mp h
    cases h
    exact Or.inl ⟨rfl, rfl, rfl⟩
  | qbuf i iolock =>
    cases h
    exact Or.inl (sameView_qbuf s i iolock)
  | dqbuf i =>
    cases h
    exact Or.inl (sameView_dqbuf s i)
  | streamon file kthread =>
    cases h
    exact Or.inl (sameView_streamon s file kthread)
  | streamoff file =>
    cases h
    exact Or.inl (sameView_streamoff s file)
  | tick waiting vbuf elapsed =>
    obtain ⟨-, h⟩ := Option.ite_none_right_eq_some.mp h
    cases h
    unfold viviThreadTick
    split
    · exact Or.inl ⟨rfl, rfl, rfl⟩
    · rename_i i rest hactive
      split
      · split
        · rename_i hwaiting hvbuf
          subst hwaiting hvbuf
          exact Or.inr (Or.inr ⟨elapsed, i, rest, rfl, hactive, rfl, rfl, rfl⟩)
        · exact Or.inl ⟨rfl, rfl, rfl⟩
      · exact Or.inl ⟨rfl, rfl, rfl⟩

/-! ### Runs -/

/-- The buffers have the size that their recorded dimensions ask for. -/
structure Inv (s : St) : Prop where
  ready : Ready (fun width height size => size = width * height * 2) s
  inside : Inside s

lemma Inv.sized {s : St} {i : ℕ} {rest : List ℕ} (hi : Inv s) (h : s.active = i :: rest) :
    (s.bufs i).size = (s.bufs i).width * (s.bufs i).height * 2 :=
  hi.ready.sized i (Or.inr (hi.ready.active i (h ▸ List.mem_cons_self)))

lemma inv_step {s s' : St} {a : Act} (hi : Inv s) (hok : Careful s a)
    (h : step s a = some s') : Inv s' := by
  refine ⟨ready_step hi.ready rfl h, fun f hf => ?_⟩
  rcases view_step h with ⟨-, -, hfills⟩ | ⟨_, _, _, -, hfills⟩ |
    ⟨elapsed, i, rest, rfl, hactive, -, -, hfills⟩
  · exact hi.inside f (hfills ▸ hf)
  · exact hi.inside f (hfills ▸ hf)
  · rw [hfills] at hf
    rcases List.mem_append.mp hf with hf | hf
    · exact hi.inside f hf
    · rw [List.mem_singleton.mp hf]
      refine (frame_inside_iff (hi.sized hactive) _).mpr (hok i ?_)
      rw [hactive]
      rfl

lemma fills_tick {s s' : St} {elapsed : BitVec 32} {i : ℕ} {rest : List ℕ}
    (h : step s (.tick true true elapsed) = some s') (hactive : s.active = i :: rest) :
    s'.fills = s.fills ++ [frame s (s.bufs i) (s.ms + elapsed)] := by
  obtain ⟨-, h⟩ := Option.ite_none_right_eq_some.mp h
  cases h
  unfold viviThreadTick
  rw [hactive]
  rfl

lemma not_inside_of_careless {s s' : St} {a : Act} (hi : Inv s) (hok : ¬ Careful s a)
    (h : step s a = some s') : ¬ Inside s' := by
  intro hinside
  cases a with
  | tick waiting vbuf elapsed =>
    cases waiting with
    | false => exact hok trivial
    | true =>
      cases vbuf with
      | false => exact hok trivial
      | true =>
        refine hok fun i hhead => ?_
        obtain ⟨rest, hactive⟩ := List.head?_eq_some_iff.mp hhead
        refine (frame_inside_iff (hi.sized hactive) _).mp (hinside _ ?_)
        rw [fills_tick h hactive]
        exact List.mem_append_right _ (List.mem_singleton_self _)
  | _ => exact hok trivial

/-- **All writes stay inside** exactly when the text fits into every buffer that is filled. -/
theorem vivi_inside_iff {as : List Act} {s : St} (h : exec step init as = some s) :
    Always step Inside init as ↔ Guarded step Careful init as := by
  refine always_iff_guarded (I := Inv) (fun _ hi => hi.inside) (fun _ _ _ => inv_step)
    (fun _ _ _ => not_inside_of_careless) h ⟨ready_init _, fun f hf => ?_⟩
  cases hf

/-- A format is set while no buffer is queued, or it is refused: because it is not supported, or
because frames are being generated. -/
def Settled (s : St) : Act → Prop
  | .sFmt known _ _ => known = false ∨ s.generating = true ∨ s.stream = []
  | _ => True

instance (s : St) (a : Act) : Decidable (Settled s a) := by
  unfold Settled
  split <;> infer_instance

/-- The buffers that may be filled have the size of the present format. -/
def Current (s : St) : Prop := Ready (fun _ _ size => size = s.width * s.height * 2) s

lemma Ready.of_stream_eq_nil {Q Q' : ℕ → ℕ → ℕ → Prop} {s : St} (h : Ready Q s)
    (hnone : s.stream = []) : Ready Q' s := by
  refine ⟨fun i hi => ?_, h.streamed, h.held, h.distinct, h.active, h.nodup⟩
  have hmem := h.streamed i hi
  rw [hnone] at hmem
  cases hmem

lemma current_step {s s' : St} {a : Act} (hc : Current s) (hok : Settled s a)
    (h : step s a = some s') : Current s' := by
  have hready := ready_step hc rfl h
  rcases view_step h with ⟨hw, hh, -⟩ | ⟨known, width, height, rfl, -⟩ |
    ⟨elapsed, i, rest, rfl, -, hw, hh, -⟩
  · unfold Current
    rwa [hw, hh]
  · cases h
    unfold sFmt at hready ⊢
    split
    · exact hc
    · rename_i hknown
      split
      · exact hc
      · rename_i hidle
        rcases hok with hno | hgen | hnone
        · simp [hno] at hknown
        · exact absurd hgen hidle
        · have hset : Ready (fun _ _ size => size = s.width * s.height * 2) { s with
              width := (boundAlignImage width height).1
              height := (boundAlignImage width height).2 } :=
            ⟨hc.sized, hc.streamed, hc.held, hc.distinct, hc.active, hc.nodup⟩
          exact hset.of_stream_eq_nil hnone
  · unfold Current
    rwa [hw, hh]

lemma careful_of_current {s : St} (hc : Current s) (a : Act) : Careful s a := by
  cases a with
  | tick waiting vbuf elapsed =>
    cases waiting with
    | false => trivial
    | true =>
      cases vbuf with
      | false => trivial
      | true =>
        intro i hhead
        have hmem : i ∈ s.active := List.mem_of_mem_head? hhead
        have hsize := hc.sized i (Or.inr (hc.active i hmem))
        exact textFits_of_le hsize.ge _
  | _ => trivial

/-- **A format that is set before the buffers are queued is safe.** -/
theorem vivi_inside_of_settled {as : List Act} {s : St} (h : exec step init as = some s)
    (hok : Guarded step Settled init as) : Inside s := by
  have hinit : Inv init ∧ Current init := by
    refine ⟨⟨ready_init _, fun f hf => ?_⟩, ready_init _⟩
    cases hf
  have hinv : Inv s ∧ Current s := by
    refine hok.invariant (I := fun s => Inv s ∧ Current s) h hinit fun u a v hu hset hstep => ?_
    exact ⟨inv_step hu.1 (careful_of_current hu.2 a) hstep, current_step hu.2 hset hstep⟩
  exact hinv.1.inside

/-- The format is set, a buffer is mapped and queued, and a frame is drawn. -/
def capture (width height : ℕ) : List Act :=
  [.sFmt true width height, .mmap 0 4096 1000000, .qbuf 0 true]

theorem vivi_inside_iff_same_format :
    Always step Inside init (capture 132 36 ++ [.streamon 0 true, .tick true true 40]) := by
  obtain ⟨s, hs⟩ : ∃ s, exec step init
    (capture 132 36 ++ [.streamon 0 true, .tick true true 40]) = some s := ⟨_, rfl⟩
  exact (vivi_inside_iff hs).mpr (by decide +kernel)

theorem vivi_inside_of_settled_same_format :
    ∃ s, exec step init (capture 132 36 ++ [.streamon 0 true, .tick true true 40]) = some s ∧
      Inside s := by
  obtain ⟨s, hs⟩ : ∃ s, exec step init
    (capture 132 36 ++ [.streamon 0 true, .tick true true 40]) = some s := ⟨_, rfl⟩
  exact ⟨s, hs, vivi_inside_of_settled hs (by decide +kernel)⟩

/-- A buffer is queued for frames of 48 by 32, and the format is set to 132 by 36 before the
stream is started. The buffer has 3072 bytes; the last line of the time stamp begins at 8216. -/
theorem vivi_text_outside :
    ∃ s, exec step init
      (capture 48 32 ++ [.sFmt true 132 36, .streamon 0 true, .tick true true 40]) = some s ∧
      ∃ f ∈ s.fills, f.size = 3072 ∧ (8216, 4) ∈ f.text := by
  refine ⟨_, rfl, _, List.mem_singleton_self _, rfl, ?_⟩
  decide +kernel

end LinuxSamples.Vivi
