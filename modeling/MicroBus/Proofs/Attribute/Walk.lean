import MicroBus.Proofs.Attribute.Parse

/-!
# The walker accepts its grammar

Skipping filler takes zero words and a short zero tail and never the word of an attribute, so a
walk passes over segments one by one and its result splits along them. From this the walk is
characterised both ways: it meets no fault exactly on runs, and otherwise it meets the
attributes of the longest run of segments and then one fault. After that, as after the end, a
cursor has nothing more to report.
-/

namespace MicroBus

/-! ## Filler -/

@[simp] theorem skipFiller_zeroWord (b : Bytes) :
    skipFiller (Bytes.zeroWord ++ b) = skipFiller b := by
  simp [skipFiller, Bytes.zeroWord]

/-- The word of an attribute is not filler. -/
theorem Attribute.Spells.skipFiller_eq {octets : Bytes} {a : Attribute} (h : Spells octets a)
    (b : Bytes) : skipFiller (octets ++ b) = octets ++ b := by
  cases h with
  | @word w inside name data lt length_eq hs =>
    have hz : Bytes.bigEndian 4 w ≠ Bytes.zeroWord := Bytes.bigEndian_ne_zeroWord (by omega) lt
    obtain ⟨x, y, z, t, hw⟩ : ∃ x y z t, Bytes.bigEndian 4 w = [x, y, z, t] :=
      ⟨_, _, _, _, rfl⟩
    rw [hw] at hz ⊢
    simp only [Bytes.zeroWord, ne_eq, List.cons.injEq, and_true] at hz
    simp only [List.cons_append, List.nil_append, skipFiller, if_neg hz]

theorem skipFiller_eq_nil {b : Bytes} (short : b.length ≤ 3) (zero : ∀ x ∈ b, x = 0) :
    skipFiller b = [] := by
  match b with
  | [] => rfl
  | [_] | [_, _] | [_, _, _] => simpa [skipFiller] using zero

/-- What filler alone leaves nothing of is a run without attributes. -/
theorem run_nil_of_skipFiller {b : Bytes} (h : skipFiller b = []) : Run b [] := by
  fun_induction skipFiller b with
  | case1 x y z t rest hz ih =>
    obtain ⟨rfl, rfl, rfl, rfl⟩ := hz
    obtain ⟨tail, hs, ht⟩ := ih h
    exact ⟨tail, .filler hs, ht⟩
  | case2 => cases h
  | case3 tail hn hz =>
    refine ⟨tail, .done tail, ?_, by simpa using hz⟩
    -- A tail of four octets or more would begin with a word.
    by_contra hl
    rcases tail with _ | ⟨x, _ | ⟨y, _ | ⟨z, _ | ⟨t, rest⟩⟩⟩⟩
    · simp at hl
    · simp at hl
    · simp at hl
    · simp at hl
    · exact hn x y z t rest rfl
  | case4 tail hn hz =>
    subst h
    simp at hz

/-- Segments behind filler are segments with the filler. -/
theorem Segments.of_skipFiller {b rest : Bytes} {attributes : List Attribute}
    (hne : skipFiller b ≠ []) (h : Segments (skipFiller b) attributes rest) :
    Segments b attributes rest := by
  fun_induction skipFiller b with
  | case1 x y z t rest hz ih =>
    obtain ⟨rfl, rfl, rfl, rfl⟩ := hz
    exact .filler (ih hne h)
  | case2 => exact h
  | case3 => exact (hne rfl).elim
  | case4 => exact h

/-! ## Steps of a walk -/

/-- Attributes already met stand in front of those still to be met. -/
theorem Cursor.walkOnto_eq (met : List Attribute) (c : Cursor) :
    c.walkOnto met = (⟨met.reverse ++ (c.walkOnto []).1.attributes, (c.walkOnto []).1.fault⟩,
      (c.walkOnto []).2) := by
  induction hn : c.remaining using Nat.strongRecOn generalizing c met with
  | ind n ih =>
    rw [Cursor.walkOnto, Cursor.walkOnto.eq_def []]
    split
    · simp
    · simp
    · next a d hc =>
      have hd := Cursor.remaining_next_lt hc
      rw [ih d.remaining (by omega) (a :: met) d rfl, ih d.remaining (by omega) [a] d rfl]
      simp

theorem Cursor.next_of_nil {c : Cursor} (hf : c.failed = false) (h : skipFiller c.rest = []) :
    c.next = (none, ⟨[], false⟩) := by
  simp [Cursor.next, hf, h]

theorem Cursor.next_of_ok {b after : Bytes} {a : Attribute}
    (h : Attribute.parse (skipFiller b) = .ok (a, after)) :
    (Cursor.start b).next = (some (.ok a), Cursor.start after) := by
  have hne : skipFiller b ≠ [] := by
    intro he
    rw [he] at h
    cases h
  simp [Cursor.next, Cursor.start, hne, h]

theorem Cursor.next_of_error {b : Bytes} {f : Fault} (hne : skipFiller b ≠ [])
    (h : Attribute.parse (skipFiller b) = .error f) :
    (Cursor.start b).next = (some (.error f), ⟨skipFiller b, true⟩) := by
  simp [Cursor.next, Cursor.start, hne, h]

theorem walkThrough_of_nil {b : Bytes} (h : skipFiller b = []) :
    walkThrough b = (⟨[], none⟩, ⟨[], false⟩) := by
  rw [walkThrough, Cursor.walkOnto]
  split <;> simp_all [Cursor.next_of_nil (c := Cursor.start b) rfl h]

theorem walkThrough_of_ok {b after : Bytes} {a : Attribute}
    (h : Attribute.parse (skipFiller b) = .ok (a, after)) :
    walkThrough b = (⟨a :: (walkThrough after).1.attributes, (walkThrough after).1.fault⟩,
      (walkThrough after).2) := by
  have hn := Cursor.next_of_ok h
  rw [walkThrough, Cursor.walkOnto]
  split
  · simp_all
  · simp_all
  · next a' d hc =>
    rw [hn] at hc
    obtain ⟨ha, rfl⟩ := Prod.mk.inj hc
    obtain rfl := Except.ok.inj (Option.some.inj ha)
    rw [Cursor.walkOnto_eq [a]]
    rfl

theorem walkThrough_of_error {b : Bytes} {f : Fault} (hne : skipFiller b ≠ [])
    (h : Attribute.parse (skipFiller b) = .error f) :
    walkThrough b = (⟨[], some f⟩, ⟨skipFiller b, true⟩) := by
  have hn := Cursor.next_of_error hne h
  rw [walkThrough, Cursor.walkOnto]
  split <;> simp_all

/-- A walk begins behind the filler. -/
theorem walkThrough_congr {b c : Bytes} (h : skipFiller b = skipFiller c) :
    walkThrough b = walkThrough c := by
  by_cases he : skipFiller b = []
  · rw [walkThrough_of_nil he, walkThrough_of_nil (h ▸ he)]
  · cases hp : Attribute.parse (skipFiller b) with
    | error f => rw [walkThrough_of_error he hp, walkThrough_of_error (h ▸ he) (h ▸ hp), h]
    | ok r =>
      rw [walkThrough_of_ok hp]
      exact (walkThrough_of_ok (h ▸ hp)).symm

/-- Every walk is at its end, at a malformed attribute, or at an attribute before a shorter
walk. -/
theorem walkInduction {motive : Bytes → Prop} (ended : ∀ b, skipFiller b = [] → motive b)
    (malformed : ∀ b f, skipFiller b ≠ [] → Attribute.parse (skipFiller b) = .error f → motive b)
    (spelled : ∀ b a after, Attribute.parse (skipFiller b) = .ok (a, after) → motive after →
      motive b) (b : Bytes) : motive b := by
  induction hn : b.length using Nat.strongRecOn generalizing b with
  | ind n ih =>
    by_cases he : skipFiller b = []
    · exact ended b he
    · cases hp : Attribute.parse (skipFiller b) with
      | error f => exact malformed b f he hp
      | ok r =>
        have hl := Attribute.length_lt_of_parse hp
        have hs := length_skipFiller_le b
        exact spelled b r.1 r.2 hp (ih r.2.length (by omega) r.2 rfl)

/-! ## Walks and segments -/

/-- Segments in front of a walk add their attributes and change nothing else. -/
theorem Segments.walkThrough_eq {b rest : Bytes} {attributes : List Attribute}
    (h : Segments b attributes rest) : walkThrough b =
      (⟨attributes ++ (walkThrough rest).1.attributes, (walkThrough rest).1.fault⟩,
        (walkThrough rest).2) := by
  induction h with
  | done rest => rfl
  | @filler b rest attributes h ih =>
    rw [walkThrough_congr (skipFiller_zeroWord b), ih]
  | @padded octets gap b rest a attributes spelled aligned h ih =>
    have hp : Attribute.parse (octets ++ gap ++ b) = .ok (a, b) :=
      spelled.parse_eq (.inl aligned)
    rw [List.append_assoc, ← spelled.skipFiller_eq] at hp
    rw [List.append_assoc, walkThrough_of_ok hp, ih]
    rfl
  | @cut octets gap a spelled short =>
    have hp : Attribute.parse (octets ++ gap ++ []) = .ok (a, []) :=
      spelled.parse_eq (.inr ⟨rfl, short⟩)
    rw [List.append_nil, ← spelled.skipFiller_eq] at hp
    rw [walkThrough_of_ok hp]
    rfl

/-- A walk that meets no fault is over a run of what it meets, and any other walk stops behind
segments of what it meets. -/
theorem run_or_segments (b : Bytes) :
    ((walk b).fault = none ∧ Run b (walk b).attributes) ∨
      ∃ f, (walk b).fault = some f ∧ Segments b (walk b).attributes (walkThrough b).2.rest := by
  refine walkInduction (motive := fun b =>
    ((walk b).fault = none ∧ Run b (walk b).attributes) ∨
      ∃ f, (walk b).fault = some f ∧ Segments b (walk b).attributes (walkThrough b).2.rest)
    ?_ ?_ ?_ b
  · intro b he
    rw [walk, walkThrough_of_nil he]
    exact .inl ⟨rfl, run_nil_of_skipFiller he⟩
  · intro b f hne hp
    rw [walk, walkThrough_of_error hne hp]
    exact .inr ⟨f, rfl, .of_skipFiller hne (.done _)⟩
  · intro b a after hp ih
    rw [walk, walkThrough_of_ok hp]
    obtain ⟨octets, gap, hb, spelled, hg⟩ := Attribute.exists_spells_of_parse hp
    have hne : skipFiller b ≠ [] := by
      intro he
      rw [he] at hp
      cases hp
    -- The attribute is padded to the word boundary, or it is the last and leaves nothing.
    rcases hg with aligned | ⟨rfl, short⟩
    · have hs {attributes : List Attribute} {rest : Bytes} (h : Segments after attributes rest) :
          Segments b (a :: attributes) rest := by
        apply Segments.of_skipFiller hne
        rw [hb]
        exact .padded spelled aligned h
      rcases ih with ⟨hn, tail, ht, hz⟩ | ⟨f, hf, ht⟩
      · exact .inl ⟨hn, tail, hs ht, hz⟩
      · exact .inr ⟨f, hf, hs ht⟩
    · have hs : Segments b [a] [] := by
        apply Segments.of_skipFiller hne
        rw [hb, List.append_nil]
        exact .cut spelled short
      rw [walkThrough_of_nil (b := []) rfl]
      exact .inl ⟨rfl, [], hs, by simp, by simp⟩

/-- A run is walked from end to end. -/
theorem Run.walk_eq {b : Bytes} {attributes : List Attribute} (h : Run b attributes) :
    walk b = ⟨attributes, none⟩ := by
  obtain ⟨tail, hs, short, zero⟩ := h
  rw [walk, hs.walkThrough_eq, walkThrough_of_nil (skipFiller_eq_nil short zero)]
  simp

theorem length_walkThrough_le (b : Bytes) : (walkThrough b).2.rest.length ≤ b.length := by
  refine walkInduction (motive := fun b => (walkThrough b).2.rest.length ≤ b.length) ?_ ?_ ?_ b
  · intro b he
    rw [walkThrough_of_nil he]
    exact Nat.zero_le _
  · intro b f hne hp
    rw [walkThrough_of_error hne hp]
    exact length_skipFiller_le b
  · intro b a after hp ih
    rw [walkThrough_of_ok hp]
    have hl := Attribute.length_lt_of_parse hp
    have hs := length_skipFiller_le b
    simp only
    omega

/-- A walk that meets a fault passes over the longest run of segments. -/
theorem longest_of_fault {b : Bytes} {f : Fault} (h : (walk b).fault = some f) :
    Segments.Longest b (walk b).attributes (walkThrough b).2.rest := by
  have hs : Segments b (walk b).attributes (walkThrough b).2.rest := by
    rcases run_or_segments b with ⟨hn, -⟩ | ⟨-, -, hs⟩
    · rw [h] at hn
      cases hn
    · exact hs
  refine ⟨hs, ?_, ?_⟩
  · intro others tail ho
    rw [ho.walkThrough_eq]
    exact length_walkThrough_le tail
  · intro others tail ho
    rw [walk, ho.walkThrough_eq]
    exact List.prefix_append _ _

/-! ## Calls of a cursor -/

/-- What a cursor reports in its `n`-th step, counted from zero. -/
def Cursor.report (c : Cursor) : Nat → Option (Except Fault Attribute)
  | 0 => c.next.1
  | n + 1 => c.next.2.report n

/-- A cursor that stays where it is has nothing to report, however often it is asked. -/
theorem Cursor.report_of_next {c : Cursor} (h : c.next = (none, c)) (n : Nat) :
    c.report n = none := by
  induction n with
  | zero => rw [report, h]
  | succ n ih => rw [report, h, ih]

/-- The steps of a cursor report what its walk meets, in order, and then nothing. -/
theorem Cursor.report_start (b : Bytes) (n : Nat) :
    (Cursor.start b).report n = (walk b).items[n]? := by
  refine walkInduction
    (motive := fun b => ∀ n, (Cursor.start b).report n = (walk b).items[n]?) ?_ ?_ ?_ b n
  · intro b he n
    have hn := Cursor.next_of_nil (c := Cursor.start b) rfl he
    rw [walk, walkThrough_of_nil he]
    cases n with
    | zero => rw [report, hn]; rfl
    | succ n => rw [report, hn, report_of_next (Cursor.next_of_nil rfl rfl)]; rfl
  · intro b f hne hp n
    have hn := Cursor.next_of_error hne hp
    rw [walk, walkThrough_of_error hne hp]
    cases n with
    | zero => rw [report, hn]; rfl
    | succ n => rw [report, hn, report_of_next (by simp [Cursor.next])]; rfl
  · intro b a after hp ih n
    have hn := Cursor.next_of_ok hp
    rw [walk, walkThrough_of_ok hp]
    cases n with
    | zero => rw [report, hn]; rfl
    | succ n => rw [report, hn, ih]; rfl

theorem Walk.ok_mem_items {w : Walk} {a : Attribute} :
    Except.ok a ∈ w.items ↔ a ∈ w.attributes := by
  cases hf : w.fault <;> simp [Walk.items, hf]

/-- A fault of a walk is the fault among what it met. -/
theorem Walk.error_mem_items {w : Walk} {f : Fault} :
    Except.error f ∈ w.items ↔ w.fault = some f := by
  cases hf : w.fault <;> simp [Walk.items, hf, eq_comm]

theorem fault_eq_none_iff (b : Bytes) :
    (walk b).fault = none ↔ ∃ attributes, Run b attributes := by
  constructor
  · intro hn
    rcases run_or_segments b with ⟨-, hr⟩ | ⟨f, hf, -⟩
    · exact ⟨_, hr⟩
    · rw [hn] at hf
      cases hf
  · rintro ⟨attributes, h⟩
    rw [h.walk_eq]

/-- A run consists of the attributes of which its walk consists. -/
theorem run_iff_items (b : Bytes) (attributes : List Attribute) :
    Run b attributes ↔ (walk b).items = attributes.map .ok := by
  constructor
  · intro h
    rw [h.walk_eq, Walk.items]
    exact List.append_nil _
  · intro h
    rcases run_or_segments b with ⟨hn, hr⟩ | ⟨f, hf, -⟩
    · have ha : (walk b).attributes = attributes := by
        rw [Walk.items, hn] at h
        exact (List.map_inj_right fun _ _ => Except.ok.inj).mp (by simpa using h)
      rwa [ha] at hr
    · have hm := Walk.error_mem_items.mpr hf
      rw [h] at hm
      simp at hm

/-- A cursor reports no fault exactly on runs, and then the attributes of the run. Of any other
octets it reports the attributes of the longest run of segments and then one fault. After that,
as after the end of a run, it reports nothing more. -/
theorem report_iff_grammar (b : Bytes) :
    (∀ n, (Cursor.start b).report n = (walk b).items[n]?) ∧
      ((∀ n f, (Cursor.start b).report n ≠ some (.error f)) ↔ ∃ attributes, Run b attributes) ∧
      (∀ attributes, Run b attributes ↔ (walk b).items = attributes.map .ok) ∧
      ((∃ attributes, Run b attributes) ∨ ∃ attributes rest f,
        Segments.Longest b attributes rest ∧
          (walk b).items = attributes.map .ok ++ [.error f]) := by
  refine ⟨Cursor.report_start b, ?_, run_iff_items b, ?_⟩
  · rw [← fault_eq_none_iff]
    constructor
    · intro h
      cases hf : (walk b).fault with
      | none => rfl
      | some f =>
        obtain ⟨n, hn⟩ := List.mem_iff_getElem?.mp (Walk.error_mem_items.mpr hf)
        exact (h n f ((Cursor.report_start b n).trans hn)).elim
    · intro hn n f h
      have hm := List.mem_of_getElem? ((Cursor.report_start b n).symm.trans h)
      rw [Walk.error_mem_items, hn] at hm
      cases hm
  · rcases run_or_segments b with ⟨-, hr⟩ | ⟨f, hf, -⟩
    · exact .inl ⟨_, hr⟩
    · exact .inr ⟨_, _, f, longest_of_fault hf, by rw [Walk.items, hf]; rfl⟩

end MicroBus
