import FineTuneHarness.Registry.EarlyStoppingHook

/-!
# When early stopping stops

The law of `EarlyStoppingHook` over whole sequences of calls, in the hook's own terms: what it
keeps as best, when it asks to stop, and what `reset` leaves of it.
-/
namespace FineTuneHarness.EarlyStoppingHook

open Library (Watch record Misses EndsInMisses Stalled)

variable {hook : EarlyStoppingHook}

/-- The results that have the metric. -/
def bearing (hook : EarlyStoppingHook) (results : List Dict) : List Dict :=
  results.filter fun r => (r.get? hook.metric).isSome

/-- `r`, shown after `before`, is better than the best kept then by `min_delta` at most. -/
def Failed (hook : EarlyStoppingHook) (before : List Dict) (r : Dict) : Prop :=
  ∃ h b v, hook.feed before = .ok h ∧ h.bestValue = some b ∧ hook.valueOf r = some v ∧
    hook.gain v b ≤ hook.minDelta

/-- After the first result with the metric, `patience` of them failed one after the other. -/
def OutOfPatience (hook : EarlyStoppingHook) (results : List Dict) : Prop :=
  ∃ pre block post, hook.bearing results = pre ++ block ++ post ∧ pre ≠ [] ∧
    (block.length : Int) = hook.patience ∧
    ∀ xs r ys, block = xs ++ r :: ys → hook.Failed (pre ++ xs) r

/-- The same result with its metric negated, if it has one. -/
def Negated (hook : EarlyStoppingHook) (r r' : Dict) : Prop :=
  hook.Numeric r' ∧ hook.valueOf r' = (hook.valueOf r).map Neg.neg

/-- The number of a result as the watch sees it. -/
def level (hook : EarlyStoppingHook) (r : Dict) : ℚ := hook.signed ((hook.valueOf r).getD 0)

theorem valueOf_bearing {results : List Dict} (hnum : ∀ r ∈ results, hook.Numeric r) {r : Dict}
    (hr : r ∈ hook.bearing results) : ∃ v, hook.valueOf r = some v := by
  obtain ⟨hm, hsome⟩ := List.mem_filter.mp hr
  obtain ⟨value, hv⟩ := Option.isSome_iff_exists.mp hsome
  obtain ⟨v, hq⟩ := Option.isSome_iff_exists.mp (hnum r hm value hv)
  exact ⟨v, by rw [valueOf, hv]; exact hq⟩

theorem valuesOf_bearing (results : List Dict) :
    hook.valuesOf (hook.bearing results) = hook.valuesOf results := by
  unfold valuesOf bearing
  rw [List.filterMap_filter]
  apply List.filterMap_congr
  intro r _
  cases hg : r.get? hook.metric with
  | none => simp [valueOf, hg]
  | some value => simp

theorem valuesOf_append (as bs : List Dict) :
    hook.valuesOf (as ++ bs) = hook.valuesOf as ++ hook.valuesOf bs := List.filterMap_append

/-- Among results with the metric, what the watch sees is one number each. -/
theorem map_signed_valuesOf {results : List Dict}
    (hv : ∀ r ∈ results, ∃ v, hook.valueOf r = some v) :
    (hook.valuesOf results).map hook.signed = results.map hook.level := by
  induction results with
  | nil => rfl
  | cons r results ih =>
    obtain ⟨v, hr⟩ := hv r (List.mem_cons_self ..)
    have hrest := ih fun r' hm => hv r' (List.mem_cons_of_mem _ hm)
    rw [valuesOf, List.filterMap_cons_some hr, ← valuesOf, List.map_cons, List.map_cons, hrest,
      level, hr]
    rfl

theorem numeric_of_value {r : Dict} (h : ∃ v, hook.valueOf r = some v) : hook.Numeric r := by
  obtain ⟨v, hv⟩ := h
  intro value hg
  rw [valueOf, hg] at hv
  exact Option.isSome_iff_exists.mpr ⟨v, hv⟩

section Sequence

variable (hfresh : hook.Fresh) (hpat : 1 ≤ hook.patience)

include hfresh hpat

/-- What a sequence of calls leaves, told by the numbers in it. -/
theorem feed_fresh {results : List Dict} (hnum : ∀ r ∈ results, hook.Numeric r) :
    ∃ h w, hook.feed results = .ok h ∧ Same hook h ∧ h.Tracks w ∧
      w.Of hook.minDelta hook.patience.toNat ((hook.valuesOf results).map hook.signed) := by
  have hn : hook.patience = hook.patience.toNat := by omega
  obtain ⟨h, hfeed, hsame, ht⟩ := feed_tracks results hn (tracks_of_fresh hfresh) hnum
  exact ⟨h, _, hfeed, hsame, ht, Watch.of_foldl (by omega) _⟩

theorem failed_iff {before : List Dict} {r : Dict}
    (hbefore : ∀ r ∈ before, ∃ v, hook.valueOf r = some v) (hr : ∃ v, hook.valueOf r = some v) :
    hook.Failed before r ↔ Misses hook.minDelta (before.map hook.level) (hook.level r) := by
  obtain ⟨v, hv⟩ := hr
  obtain ⟨h, w, hfeed, hsame, ht, hw⟩ :=
    feed_fresh hfresh hpat fun r' hm => numeric_of_value (hbefore r' hm)
  have hrecord := hw.best
  rw [map_signed_valuesOf hbefore] at hrecord
  have hlevel : hook.level r = hook.signed v := by rw [level, hv]; rfl
  constructor
  · rintro ⟨h', b, v', hfeed', hb, hv', hgain⟩
    rw [hfeed] at hfeed'
    obtain rfl := Except.ok.inj hfeed'
    rw [hv] at hv'
    obtain rfl := Option.some.inj hv'
    rw [gain_eq] at hgain
    cases hbest : w.best with
    | none =>
      rw [bestValue, ht.none hbest] at hb
      cases hb
    | some c =>
      obtain ⟨q, hq, rfl⟩ := ht.some c hbest
      rw [hb] at hq
      obtain rfl := Option.some.inj hq
      rw [hbest, hsame.signed] at hrecord
      exact ⟨_, hrecord.symm, by rw [hlevel]; exact hgain⟩
  · rintro ⟨c, hc, hle⟩
    rw [← hrecord] at hc
    obtain ⟨q, hq, rfl⟩ := ht.some c hc
    refine ⟨h, q, v, hfeed, hq, hv, ?_⟩
    rw [gain_eq, ← hlevel, ← hsame.signed]
    exact hle

/-- The hook's own failures are the misses of its numbers. -/
theorem outOfPatience_iff {results : List Dict} (hnum : ∀ r ∈ results, hook.Numeric r) :
    hook.OutOfPatience results ↔
      Stalled hook.minDelta hook.patience.toNat ((hook.valuesOf results).map hook.signed) := by
  have hval : ∀ r ∈ hook.bearing results, ∃ v, hook.valueOf r = some v :=
    fun r hr => valueOf_bearing hnum hr
  rw [← valuesOf_bearing, map_signed_valuesOf hval]
  constructor
  · rintro ⟨pre, block, post, hsplit, -, hlen, hfail⟩
    rw [hsplit] at hval ⊢
    refine ⟨(pre ++ block).map hook.level, ?_, pre.map hook.level, block.map hook.level,
      List.map_append, ?_, ?_⟩
    · rw [@List.map_append _ _ _ (pre ++ block)]
      exact List.prefix_append _ _
    · rw [List.length_map]
      omega
    · intro xs v ys hb
      obtain ⟨xs, rest, rfl, rfl, hrest⟩ := List.map_eq_append_iff.mp hb
      obtain ⟨r, ys, rfl, rfl, rfl⟩ := List.map_eq_cons_iff.mp hrest
      rw [← List.map_append, ← failed_iff hfresh hpat]
      · exact hfail xs r ys rfl
      · intro r' hm
        apply hval r'
        simp only [List.mem_append, List.mem_cons] at hm ⊢
        tauto
      · apply hval r
        simp
  · rintro ⟨ws, ⟨post', hpost⟩, pre', block', rfl, hlen, hmiss⟩
    obtain ⟨front, post, hsplit, hfront, rfl⟩ := List.map_eq_append_iff.mp hpost.symm
    obtain ⟨pre, block, rfl, rfl, rfl⟩ := List.map_eq_append_iff.mp hfront
    rw [hsplit] at hval
    have hfail : ∀ xs r ys, block = xs ++ r :: ys → hook.Failed (pre ++ xs) r := by
      rintro xs r ys rfl
      rw [failed_iff hfresh hpat, List.map_append]
      · apply hmiss (xs.map hook.level) (hook.level r) (ys.map hook.level)
        rw [List.map_append, List.map_cons]
      · intro r' hm
        apply hval r'
        simp only [List.mem_append, List.mem_cons] at hm ⊢
        tauto
      · apply hval r
        simp
    rw [List.length_map] at hlen
    refine ⟨pre, block, post, hsplit, ?_, by omega, hfail⟩
    rintro rfl
    -- the first value of the block would be a miss before any record
    cases block with
    | nil =>
      simp only [List.length_nil] at hlen
      omega
    | cons r block =>
      obtain ⟨h, b, v, hfeed, hb, -⟩ := hfail [] r block rfl
      obtain rfl := Except.ok.inj hfeed
      rw [bestValue, ← hfresh] at hb
      cases hb

/-- In mode `"max"` the best is a value seen, and no value seen exceeds it by more than
`min_delta`. -/
theorem best_seen (hδ : 0 ≤ hook.minDelta) (hmax : hook.mode = "max") {results : List Dict}
    (hnum : ∀ r ∈ results, hook.Numeric r) (hne : hook.bearing results ≠ [])
    {h : EarlyStoppingHook} (hfeed : hook.feed results = .ok h) :
    ∃ b, h.bestValue = some b ∧ b ∈ hook.valuesOf results ∧
      ∀ v ∈ hook.valuesOf results, v - b ≤ hook.minDelta := by
  obtain ⟨h', w, hfeed', hsame, ht, hw⟩ := feed_fresh hfresh hpat hnum
  rw [hfeed] at hfeed'
  obtain rfl := Except.ok.inj hfeed'
  have hid : (hook.valuesOf results).map hook.signed = hook.valuesOf results := by
    have hsigned : hook.signed = id := by
      funext q
      exact if_pos hmax
    rw [hsigned, List.map_id]
  have hrecord := hw.best
  rw [hid] at hrecord
  have hvalues : hook.valuesOf results ≠ [] := by
    obtain ⟨r, hr⟩ := List.exists_mem_of_ne_nil _ hne
    obtain ⟨v, hv⟩ := valueOf_bearing hnum hr
    exact List.ne_nil_of_mem (List.mem_filterMap.mpr ⟨r, (List.mem_filter.mp hr).1, hv⟩)
  cases hbest : w.best with
  | none =>
    rw [hbest] at hrecord
    exact absurd (Library.record_eq_none.mp hrecord.symm) hvalues
  | some c =>
    obtain ⟨b, hb, hbc⟩ := ht.some c hbest
    have hcb : b = c := by
      rw [hsame.signed] at hbc
      rw [← hbc]
      exact (if_pos hmax).symm
    rw [hbest, ← hcb] at hrecord
    exact ⟨b, hb, Library.record_mem hrecord.symm, fun v hv =>
      Library.sub_record_le hδ hrecord.symm hv⟩

/-- In mode `"max"` the best never decreases. -/
theorem best_mono (hδ : 0 ≤ hook.minDelta) (hmax : hook.mode = "max") {pre post : List Dict}
    (hnum : ∀ r ∈ pre ++ post, hook.Numeric r) {h₀ h : EarlyStoppingHook}
    (hpre : hook.feed pre = .ok h₀) (hall : hook.feed (pre ++ post) = .ok h) {b₀ : ℚ}
    (hb₀ : h₀.bestValue = some b₀) : ∃ b, h.bestValue = some b ∧ b₀ ≤ b := by
  have hsigned : hook.signed = id := by
    funext q
    exact if_pos hmax
  obtain ⟨h₁, w₁, hfeed₁, hsame₁, ht₁, hw₁⟩ :=
    feed_fresh hfresh hpat fun r hr => hnum r (List.mem_append_left _ hr)
  obtain ⟨h₂, w₂, hfeed₂, hsame₂, ht₂, hw₂⟩ := feed_fresh hfresh hpat hnum
  rw [hpre] at hfeed₁
  obtain rfl := Except.ok.inj hfeed₁
  rw [hall] at hfeed₂
  obtain rfl := Except.ok.inj hfeed₂
  have hrecord₁ := hw₁.best
  have hrecord₂ := hw₂.best
  rw [hsigned, List.map_id] at hrecord₁ hrecord₂
  cases hbest₁ : w₁.best with
  | none =>
    rw [bestValue, ht₁.none hbest₁] at hb₀
    cases hb₀
  | some c₁ =>
    obtain ⟨q₁, hq₁, hc₁⟩ := ht₁.some c₁ hbest₁
    rw [hb₀] at hq₁
    obtain rfl := Option.some.inj hq₁
    rw [hsame₁.signed, hsigned] at hc₁
    cases hbest₂ : w₂.best with
    | none =>
      rw [hbest₂] at hrecord₂
      rw [hbest₁] at hrecord₁
      have hnil := Library.record_eq_none.mp hrecord₂.symm
      rw [valuesOf_append] at hnil
      have hnil₁ : hook.valuesOf pre = [] := (List.append_eq_nil_iff.mp hnil).1
      rw [hnil₁] at hrecord₁
      cases hrecord₁
    | some c₂ =>
      obtain ⟨b, hb, hc₂⟩ := ht₂.some c₂ hbest₂
      rw [hsame₂.signed, hsigned] at hc₂
      rw [hbest₁, ← hc₁] at hrecord₁
      rw [hbest₂, ← hc₂, valuesOf_append] at hrecord₂
      exact ⟨b, hb, Library.record_mono hδ hrecord₁.symm hrecord₂.symm⟩

/-- Once a hook asks to stop, it asks so after any further call. -/
theorem shouldStop_stays {pre post : List Dict} (hnum : ∀ r ∈ pre ++ post, hook.Numeric r)
    {h₀ h : EarlyStoppingHook} (hpre : hook.feed pre = .ok h₀)
    (hall : hook.feed (pre ++ post) = .ok h) (hstop : h₀.shouldStop = true) :
    h.shouldStop = true := by
  obtain ⟨h₁, w₁, hfeed₁, -, ht₁, hw₁⟩ :=
    feed_fresh hfresh hpat fun r hr => hnum r (List.mem_append_left _ hr)
  obtain ⟨h₂, w₂, hfeed₂, -, ht₂, hw₂⟩ := feed_fresh hfresh hpat hnum
  rw [hpre] at hfeed₁
  obtain rfl := Except.ok.inj hfeed₁
  rw [hall] at hfeed₂
  obtain rfl := Except.ok.inj hfeed₂
  rw [ht₁.shouldStop, hw₁.tripped] at hstop
  rw [ht₂.shouldStop, hw₂.tripped]
  apply Library.stalled_of_prefix hstop
  rw [valuesOf_append, List.map_append]
  exact List.prefix_append _ _

theorem shouldStop_iff {results : List Dict} (hnum : ∀ r ∈ results, hook.Numeric r)
    {h : EarlyStoppingHook} (hfeed : hook.feed results = .ok h) :
    h.shouldStop = true ↔ hook.OutOfPatience results := by
  obtain ⟨h', w, hfeed', -, ht, hw⟩ := feed_fresh hfresh hpat hnum
  rw [hfeed] at hfeed'
  obtain rfl := Except.ok.inj hfeed'
  rw [ht.shouldStop, hw.tripped, outOfPatience_iff hfresh hpat hnum]

/-- Mode `"min"` is mode `"max"` on the negated sequence. -/
theorem shouldStop_negated (hmin : hook.mode = "min") {results negated : List Dict}
    (hnum : ∀ r ∈ results, hook.Numeric r) (hneg : List.Forall₂ hook.Negated results negated)
    {h : EarlyStoppingHook} (hfeed : hook.feed results = .ok h) :
    ∃ h', { hook with mode := "max" }.feed negated = .ok h' ∧ h'.shouldStop = h.shouldStop := by
  have hfresh' : Fresh { hook with mode := "max" } := by
    have hall : hook.reset = hook := hfresh
    cases hook
    simp only [reset, mk.injEq] at hall
    simp only [Fresh, reset, mk.injEq]
    exact ⟨trivial, trivial, trivial, trivial, hall.2.2.2.2⟩
  have hnum' : ∀ r ∈ negated, { hook with mode := "max" }.Numeric r := by
    intro r hr
    obtain ⟨i, hi, rfl⟩ := List.mem_iff_getElem.mp hr
    have hi' : i < results.length := hneg.length_eq ▸ hi
    exact ((List.forall₂_iff_get.mp hneg).2 i hi' hi).1
  have hvalues : ({ hook with mode := "max" }.valuesOf negated).map
      { hook with mode := "max" }.signed = (hook.valuesOf results).map hook.signed := by
    have hmax : { hook with mode := "max" }.signed = id := by
      funext q
      exact if_pos rfl
    have hsigned : hook.signed = Neg.neg := by
      funext q
      exact if_neg (by rw [hmin]; decide)
    rw [hmax, List.map_id, hsigned]
    show negated.filterMap hook.valueOf = (results.filterMap hook.valueOf).map Neg.neg
    clear hnum hfeed hnum'
    induction hneg with
    | nil => rfl
    | @cons r r' results negated hr _ ih =>
      cases hv : hook.valueOf r with
      | none =>
        have hv' : hook.valueOf r' = none := by rw [hr.2, hv]; rfl
        rw [List.filterMap_cons_none hv, List.filterMap_cons_none hv', ih]
      | some v =>
        have hv' : hook.valueOf r' = some (-v) := by rw [hr.2, hv]; rfl
        rw [List.filterMap_cons_some hv, List.filterMap_cons_some hv', ih, List.map_cons]
  obtain ⟨h₁, w₁, hfeed₁, -, ht₁, hw₁⟩ := feed_fresh hfresh hpat hnum
  obtain ⟨h₂, w₂, hfeed₂, -, ht₂, hw₂⟩ := feed_fresh hfresh' hpat hnum'
  rw [hfeed] at hfeed₁
  obtain rfl := Except.ok.inj hfeed₁
  refine ⟨h₂, hfeed₂, ?_⟩
  rw [hvalues] at hw₂
  have htripped : w₂.tripped = true ↔ w₁.tripped = true := by rw [hw₁.tripped, hw₂.tripped]
  rw [ht₁.shouldStop, ht₂.shouldStop]
  exact Bool.eq_iff_iff.mpr htripped

end Sequence

/-- Results without the metric could as well not have been shown. -/
theorem feed_bearing (results : List Dict) (hook : EarlyStoppingHook) :
    hook.feed (hook.bearing results) = hook.feed results := by
  induction results generalizing hook with
  | nil => rfl
  | cons r results ih =>
    cases hg : r.get? hook.metric with
    | none =>
      have hb : hook.bearing (r :: results) = hook.bearing results := by simp [bearing, hg]
      rw [hb, ih, feed, afterTaskSuccess_missing hg]
      rfl
    | some value =>
      have hb : hook.bearing (r :: results) = r :: hook.bearing results := by simp [bearing, hg]
      rw [hb, feed, feed]
      cases hstep : hook.afterTaskSuccess r with
      | error e => rfl
      | ok h =>
        have hmetric : h.bearing results = hook.bearing results := by
          rw [bearing, bearing, (same_afterTaskSuccess hstep).metric]
        show h.feed (hook.bearing results) = h.feed results
        rw [← hmetric, ih]

/-- **The early stopping law.** -/
theorem early_stopping_law (hook : EarlyStoppingHook) (hfresh : hook.Fresh)
    (hpat : 1 ≤ hook.patience) (hδ : 0 ≤ hook.minDelta) (results : List Dict)
    (hnum : ∀ r ∈ results, hook.Numeric r) :
    ∃ h, hook.feed results = .ok h ∧ hook.feed (hook.bearing results) = .ok h ∧
      (hook.mode = "max" →
        (hook.bearing results ≠ [] → ∃ b, h.bestValue = some b ∧ b ∈ hook.valuesOf results ∧
          ∀ v ∈ hook.valuesOf results, v - b ≤ hook.minDelta) ∧
        (∀ pre post h₀ b₀, results = pre ++ post → hook.feed pre = .ok h₀ →
          h₀.bestValue = some b₀ → ∃ b, h.bestValue = some b ∧ b₀ ≤ b)) ∧
      (h.shouldStop = true ↔ hook.OutOfPatience results) ∧
      (∀ pre post h₀, results = pre ++ post → hook.feed pre = .ok h₀ →
        h₀.shouldStop = true → h.shouldStop = true) ∧
      (hook.mode = "min" → ∀ negated, List.Forall₂ hook.Negated results negated →
        ∃ h', { hook with mode := "max" }.feed negated = .ok h' ∧ h'.shouldStop = h.shouldStop) ∧
      ∀ later, h.reset.feed later = hook.feed later := by
  obtain ⟨h, w, hfeed, hsame, -⟩ := feed_fresh hfresh hpat hnum
  have hreset : h.reset = hook := hsame.reset.trans hfresh
  refine ⟨h, hfeed, (feed_bearing results hook).trans hfeed, ?_, ?_, ?_, ?_, ?_⟩
  · intro hmax
    constructor
    · intro hne
      exact best_seen hfresh hpat hδ hmax hnum hne hfeed
    · rintro pre post h₀ b₀ rfl hpre hb₀
      exact best_mono hfresh hpat hδ hmax hnum hpre hfeed hb₀
  · exact shouldStop_iff hfresh hpat hnum hfeed
  · rintro pre post h₀ rfl hpre hstop
    exact shouldStop_stays hfresh hpat hnum hpre hfeed hstop
  · intro hmin negated hneg
    exact shouldStop_negated hfresh hpat hmin hnum hneg hfeed
  · intro later
    rw [hreset]

/-- With a patience of one, `True` after a result without the metric is no better than `1`. -/
theorem early_stopping_law_tie :
    ∃ h, feed { patience := 1 }
        [Dict.ofList [("accuracy", .int 1)], [], Dict.ofList [("accuracy", .bool true)]] = .ok h ∧
      h.shouldStop = true := by
  obtain ⟨h, hfeed, -, -, -⟩ := early_stopping_law { patience := 1 } rfl (by decide)
    (by decide +kernel)
    [Dict.ofList [("accuracy", .int 1)], [], Dict.ofList [("accuracy", .bool true)]] (by
      intro r hr v hv
      simp only [List.mem_cons, List.not_mem_nil, or_false] at hr
      rcases hr with rfl | rfl | rfl
      · obtain rfl := Option.some.inj hv
        rfl
      · cases hv
      · obtain rfl := Option.some.inj hv
        rfl)
  have hrun : ((feed { patience := 1 }
      [Dict.ofList [("accuracy", .int 1)], [], Dict.ofList [("accuracy", .bool true)]]).toOption.map
        (·.shouldStop)) = some true := by decide +kernel
  rw [hfeed] at hrun
  exact ⟨h, hfeed, Option.some.inj hrun⟩

end FineTuneHarness.EarlyStoppingHook
