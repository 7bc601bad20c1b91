import FineTuneHarness.Executor.Discipline
import FineTuneHarness.Observability.Logging
import FineTuneHarness.Safety.DatasetHashes

/-!
# Secrets and the log

`format` redacts the extra fields of a record, and goes no deeper. What it leaves in plaintext
is what the values of the other fields hold under sensitive keys, at any depth.
-/
namespace FineTuneHarness

open JsonFormatter Library Library.Program

variable {tx : LogText}

/-! ## Keys at any depth -/

/-- `j` has an object at some depth with the member `k: x`. -/
inductive Json.Occurs : Json → String → Json → Prop
  | member {items k x} (h : (k, x) ∈ items) : Occurs (.obj items) k x
  | element {xs y k x} (hy : y ∈ xs) (h : Occurs y k x) : Occurs (.arr xs) k x
  | deeper {items k' y k x} (hy : (k', y) ∈ items) (h : Occurs y k x) : Occurs (.obj items) k x

/-- The same for a value: `k` is the name under which the key is written. -/
inductive PyVal.Occurs : PyVal → String → PyVal → Prop
  | entry {items key k u} (h : (key, u) ∈ items) (hk : key.jsonName = .ok k) :
      Occurs (.dict items) k u
  | element {xs w k u} (hw : w ∈ xs) (h : Occurs w k u) : Occurs (.list xs) k u
  | deeper {items key w k u} (hw : (key, w) ∈ items) (h : Occurs w k u) : Occurs (.dict items) k u

/-- Nothing but `[REDACTED]` under a sensitive key. -/
def Json.Redacted (j : Json) : Prop :=
  ∀ k x, j.Occurs k x → isSensitive k = true → x = .str redacted

def PyVal.Redacted (v : PyVal) : Prop :=
  ∀ k u, v.Occurs k u → isSensitive k = true → u = .str redacted

/-- Dictionaries, lists and scalars. -/
inductive PyVal.JsonLike : PyVal → Prop
  | none : JsonLike .none
  | bool (b) : JsonLike (.bool b)
  | int (i) : JsonLike (.int i)
  | float (f) : JsonLike (.float f)
  | str (s) : JsonLike (.str s)
  | list {xs} (h : ∀ x ∈ xs, JsonLike x) : JsonLike (.list xs)
  | dict {items : List (PyKey × PyVal)} (hk : ∀ kv ∈ items, ∃ name, kv.1.jsonName = .ok name)
      (h : ∀ kv ∈ items, JsonLike kv.2) : JsonLike (.dict items)

theorem PyVal.JsonLike.occurs {v u : PyVal} {k : String} (h : v.JsonLike) (ho : v.Occurs k u) :
    u.JsonLike := by
  induction ho with
  | entry hm _ => cases h with | dict _ h => exact h _ hm
  | element hw _ ih => cases h with | list h => exact ih (h _ hw)
  | deeper hw _ ih => cases h with | dict _ h => exact ih (h _ hw)

/-! ## What is written for a value -/

theorem emitList_ok {vs : List PyVal} {js : List Json} (h : emitList tx vs = .ok js) :
    List.Forall₂ (fun v j => v.emit tx = .ok j) vs js := by
  induction vs generalizing js with
  | nil =>
    obtain rfl := Except.ok.inj h
    exact .nil
  | cons v vs ih =>
    obtain ⟨j, hj, h⟩ := Except.bind_ok h
    obtain ⟨rest, hrest, h⟩ := Except.bind_ok h
    obtain rfl := Except.ok.inj h
    exact .cons hj (ih hrest)

/-- An entry and the member written for it. -/
def Written (tx : LogText) (kv : PyKey × PyVal) (x : String × Json) : Prop :=
  kv.1.jsonName = .ok x.1 ∧ kv.2.emit tx = .ok x.2

theorem emitItems_ok {d : Dict} {items : List (String × Json)} (h : emitItems tx d = .ok items) :
    List.Forall₂ (Written tx) d items := by
  induction d generalizing items with
  | nil =>
    obtain rfl := Except.ok.inj h
    exact .nil
  | cons kv d ih =>
    obtain ⟨k, v⟩ := kv
    obtain ⟨name, hname, h⟩ := Except.bind_ok h
    obtain ⟨j, hj, h⟩ := Except.bind_ok h
    obtain ⟨rest, hrest, h⟩ := Except.bind_ok h
    obtain rfl := Except.ok.inj h
    exact .cons ⟨hname, hj⟩ (ih hrest)

/-- Only a dictionary is written as an object. -/
theorem emit_obj {v : PyVal} {items : List (String × Json)} (h : v.emit tx = .ok (.obj items)) :
    ∃ d, v = .dict d ∧ List.Forall₂ (Written tx) d items := by
  cases v with
  | dict d =>
    obtain ⟨items', hd, he⟩ := Except.map_ok h
    obtain rfl := Json.obj.inj he
    exact ⟨d, rfl, emitItems_ok hd⟩
  | list | mapping | obj => obtain ⟨_, _, he⟩ := Except.map_ok h; cases he
  | _ => cases h

theorem emit_arr {v : PyVal} {xs : List Json} (h : v.emit tx = .ok (.arr xs)) :
    ∃ vs, v = .list vs ∧ List.Forall₂ (fun v j => v.emit tx = .ok j) vs xs := by
  cases v with
  | list vs =>
    obtain ⟨xs', hl, he⟩ := Except.map_ok h
    obtain rfl := Json.arr.inj he
    exact ⟨vs, rfl, emitList_ok hl⟩
  | dict | mapping | obj => obtain ⟨_, _, he⟩ := Except.map_ok h; cases he
  | _ => cases h

/-- A text that is written is the text itself, unless a foreign object was turned into it. -/
theorem PyVal.JsonLike.emit_str {v : PyVal} {s : String} (hv : v.JsonLike)
    (h : v.emit tx = .ok (.str s)) : v = .str s := by
  cases hv with
  | str s' => rw [Json.str.inj (Except.ok.inj h)]
  | list | dict => obtain ⟨_, _, he⟩ := Except.map_ok h; cases he
  | _ => cases h

theorem forall₂_right {α β : Type} {R : α → β → Prop} {xs : List α} {ys : List β}
    (h : List.Forall₂ R xs ys) {y : β} (hy : y ∈ ys) : ∃ x ∈ xs, R x y := by
  induction h with
  | nil => cases hy
  | cons hr _ ih =>
    rcases List.mem_cons.mp hy with rfl | hy
    · exact ⟨_, List.mem_cons_self, hr⟩
    · obtain ⟨x, hx, hr⟩ := ih hy
      exact ⟨x, List.mem_cons_of_mem _ hx, hr⟩

/-- Every member that is written comes from an entry of the value. -/
theorem Json.Occurs.source {j x : Json} {k : String} (ho : j.Occurs k x) {v : PyVal}
    (h : v.emit tx = .ok j) : ∃ u, v.Occurs k u ∧ u.emit tx = .ok x := by
  induction ho generalizing v with
  | member hm =>
    obtain ⟨d, rfl, hd⟩ := emit_obj h
    obtain ⟨⟨key, u⟩, hu, hk, hx⟩ := forall₂_right hd hm
    exact ⟨u, .entry hu hk, hx⟩
  | element hy _ ih =>
    obtain ⟨vs, rfl, hvs⟩ := emit_arr h
    obtain ⟨w, hw, hj⟩ := forall₂_right hvs hy
    obtain ⟨u, hu, hx⟩ := ih hj
    exact ⟨u, .element hw hu, hx⟩
  | deeper hy _ ih =>
    obtain ⟨d, rfl, hd⟩ := emit_obj h
    obtain ⟨⟨key, w⟩, hw, -, hj⟩ := forall₂_right hd hy
    obtain ⟨u, hu, hx⟩ := ih hj
    exact ⟨u, .deeper hw hu, hx⟩

/-- Every entry of the value is written. -/
theorem PyVal.Occurs.written {v u : PyVal} {k : String} (ho : v.Occurs k u) {j : Json}
    (h : v.emit tx = .ok j) : ∃ x, j.Occurs k x ∧ u.emit tx = .ok x := by
  induction ho generalizing j with
  | entry hm hk =>
    rw [PyVal.emit] at h
    obtain ⟨items, hitems, rfl⟩ := Except.map_ok h
    obtain ⟨⟨name, x⟩, hx, hname, hj⟩ := forall₂_right (emitItems_ok hitems).flip hm
    obtain rfl := Except.ok.inj (hk.symm.trans hname)
    exact ⟨x, .member hx, hj⟩
  | element hw _ ih =>
    rw [PyVal.emit] at h
    obtain ⟨js, hjs, rfl⟩ := Except.map_ok h
    obtain ⟨y, hy, hj⟩ := forall₂_right (emitList_ok hjs).flip hw
    obtain ⟨x, hx, hu⟩ := ih hj
    exact ⟨x, .element hy hx, hu⟩
  | deeper hw _ ih =>
    rw [PyVal.emit] at h
    obtain ⟨items, hitems, rfl⟩ := Except.map_ok h
    obtain ⟨⟨name, y⟩, hy, -, hj⟩ := forall₂_right (emitItems_ok hitems).flip hw
    obtain ⟨x, hx, hu⟩ := ih hj
    exact ⟨x, .deeper hy hx, hu⟩

/-- **Nothing is redacted on the way.** What is written for a value shows a secret exactly where
the value holds one. -/
theorem emit_redacted_iff {v : PyVal} {j : Json} (hv : v.JsonLike) (h : v.emit tx = .ok j) :
    j.Redacted ↔ v.Redacted := by
  constructor
  · intro hj k u hu hs
    obtain ⟨x, hx, he⟩ := hu.written h
    obtain rfl := hj k x hx hs
    exact (hv.occurs hu).emit_str he
  · intro hv' k x hx hs
    obtain ⟨u, hu, he⟩ := hx.source h
    obtain rfl := hv' k u hu hs
    exact (Except.ok.inj he).symm

theorem emitList_total {vs : List PyVal} (h : ∀ v ∈ vs, ∃ j, v.emit tx = .ok j) :
    ∃ js, emitList tx vs = .ok js := by
  induction vs with
  | nil => exact ⟨[], rfl⟩
  | cons v vs ih =>
    obtain ⟨⟨j, hj⟩, h⟩ := List.forall_mem_cons.mp h
    obtain ⟨js, hjs⟩ := ih h
    exact ⟨j :: js, by rw [emitList, hj, hjs]; rfl⟩

theorem emitItems_total {d : Dict} (hk : ∀ kv ∈ d, ∃ name, kv.1.jsonName = .ok name)
    (h : ∀ kv ∈ d, ∃ j, kv.2.emit tx = .ok j) : ∃ items, emitItems tx d = .ok items := by
  induction d with
  | nil => exact ⟨[], rfl⟩
  | cons kv d ih =>
    obtain ⟨⟨name, hname⟩, hk⟩ := List.forall_mem_cons.mp hk
    obtain ⟨⟨j, hj⟩, h⟩ := List.forall_mem_cons.mp h
    obtain ⟨items, hitems⟩ := ih hk h
    exact ⟨(name, j) :: items, by rw [emitItems, hname, hj, hitems]; rfl⟩

variable (tx) in
/-- JSON-like values are always written. -/
theorem PyVal.JsonLike.emit_total {v : PyVal} (h : v.JsonLike) : ∃ j, v.emit tx = .ok j := by
  induction h with
  | none | bool | int | float | str => exact ⟨_, rfl⟩
  | list _ ih =>
    obtain ⟨js, hjs⟩ := emitList_total ih
    exact ⟨.arr js, by rw [PyVal.emit, hjs]; rfl⟩
  | dict hk _ ih =>
    obtain ⟨items, hitems⟩ := emitItems_total hk ih
    exact ⟨.obj items, by rw [PyVal.emit, hitems]; rfl⟩

/-! ## The payload of a record -/

namespace JsonFormatter

variable {record : LogRecord}

/-- An extra field that `format` copies as it is. -/
def Visible (record : LogRecord) (key : String) (value : PyVal) : Prop :=
  (key, value) ∈ record.extra ∧ skipped key = false ∧ isSensitive key = false

/-- The traceback or the stack takes the place of another value. -/
def Overwritten (record : LogRecord) (key : String) (value : PyVal) : Prop :=
  (key = "exc" ∧ ∃ text, record.excInfo = some text ∧ value ≠ .str text) ∨
    (key = "stack" ∧ ∃ text, record.stackInfo = some text ∧ value ≠ .str text)

/-- The entries a payload may have: fields of the record under their own names, and texts under
names that are not sensitive. -/
inductive Shown (record : LogRecord) : PyKey × PyVal → Prop
  | field {key value} (h : Visible record key value) : Shown record (.str key, value)
  | text {key} (text : String) (h : isSensitive key = false) : Shown record (.str key, .str text)
  | hidden (key) : Shown record (.str key, .str redacted)

theorem addText_shown {d : Dict} {key : String} {text : Option String}
    (hk : isSensitive key = false) (hd : ∀ kv ∈ d, Shown record kv) :
    ∀ kv ∈ addText d key text, Shown record kv := by
  cases text with
  | none => exact hd
  | some text => exact Dict.forall_set.mpr ⟨fun kv hkv _ => hd kv hkv, .text text hk⟩

theorem addExtra_shown {d : Dict} {field : String × PyVal} (hf : field ∈ record.extra)
    (hd : ∀ kv ∈ d, Shown record kv) : ∀ kv ∈ addExtra d field, Shown record kv := by
  unfold addExtra
  split
  · exact hd
  next hs =>
    refine Dict.forall_set.mpr ⟨fun kv hkv _ => hd kv hkv, ?_⟩
    split
    · exact .hidden _
    next hsens => exact .field ⟨hf, by simpa using hs, by simpa using hsens⟩

theorem payload_shown : ∀ kv ∈ payload tx record, Shown record kv := by
  refine addText_shown (by decide +kernel) (addText_shown (by decide +kernel) ?_)
  have hfold : ∀ (fields : List (String × PyVal)) (d : Dict), (∀ f ∈ fields, f ∈ record.extra) →
      (∀ kv ∈ d, Shown record kv) → ∀ kv ∈ fields.foldl addExtra d, Shown record kv := by
    intro fields
    induction fields with
    | nil => exact fun d _ hd => hd
    | cons field fields ih =>
      intro d hf hd
      obtain ⟨hf, hfs⟩ := List.forall_mem_cons.mp hf
      exact ih _ hfs (addExtra_shown hf hd)
  refine hfold _ _ (fun f hf => hf) ?_
  simp only [Dict.ofList, List.map_cons, List.map_nil, List.forall_mem_cons]
  exact ⟨.text _ (by decide +kernel), .text _ (by decide +kernel), .text _ (by decide +kernel),
    .text _ (by decide +kernel), by simp⟩

/-- A field that another one does not overwrite stays. -/
theorem addExtra_kept {d : Dict} {field : String × PyVal} {kv : PyKey × PyVal}
    (hne : kv.1 ≠ .str field.1) : kv ∈ addExtra d field ↔ kv ∈ d := by
  unfold addExtra
  split
  · rfl
  · exact Dict.mem_set_of_ne hne

/-- **Every visible field is copied** by the loop, once. -/
theorem foldl_addExtra_mem {fields : List (String × PyVal)} {d : Dict} {key : String}
    {value v : PyVal} (hnodup : (fields.map (·.1)).Nodup) (hf : (key, value) ∈ fields)
    (hs : skipped key = false) (hsens : isSensitive key = false) :
    (PyKey.str key, v) ∈ fields.foldl addExtra d ↔ v = value := by
  induction fields generalizing d with
  | nil => cases hf
  | cons field fields ih =>
    obtain ⟨hnot, hnodup⟩ := List.nodup_cons.mp hnodup
    rw [List.foldl_cons]
    rcases List.mem_cons.mp hf with rfl | hf
    · have hkeep : ∀ (rest : List (String × PyVal)) (d : Dict), key ∉ rest.map (·.1) →
          ((PyKey.str key, v) ∈ rest.foldl addExtra d ↔ (PyKey.str key, v) ∈ d) := by
        intro rest
        induction rest with
        | nil => exact fun d _ => Iff.rfl
        | cons f rest ihr =>
          intro d hrest
          rw [List.foldl_cons, ihr _ fun h => hrest (List.mem_cons_of_mem _ h)]
          exact addExtra_kept fun he => hrest (by rw [PyKey.str.inj he]; exact List.mem_cons_self)
      rw [hkeep _ _ hnot, addExtra, if_neg (by simp [hs]), if_neg (by simp [hsens])]
      exact ⟨Dict.eq_of_mem_set, fun h => h ▸ Dict.mem_set_self _ _ _⟩
    · exact ih hnodup hf

theorem addText_mem {d : Dict} {key key' : String} {text : Option String} {v : PyVal} :
    (PyKey.str key, v) ∈ addText d key' text ↔
      (if key = key' then match text with
        | some text => v = .str text
        | none => (PyKey.str key, v) ∈ d
      else (PyKey.str key, v) ∈ d) := by
  cases text with
  | none => simp [addText]
  | some text =>
    split
    next h =>
      subst h
      exact ⟨Dict.eq_of_mem_set, fun h => h ▸ Dict.mem_set_self _ _ _⟩
    next h => exact Dict.mem_set_of_ne fun he => h (PyKey.str.inj he)

/-- A visible field is in the payload with its value, unless another text took its place. -/
theorem visible_mem {key : String} {value v : PyVal} (h : Visible record key value) :
    (PyKey.str key, v) ∈ payload tx record ↔
      (if key = "stack" then record.stackInfo
        else if key = "exc" then record.excInfo else none).elim (v = value) (v = .str ·) := by
  have hloop := fun d => foldl_addExtra_mem (d := d) (v := v) record.keys h.1 h.2.1 h.2.2
  unfold payload
  rw [addText_mem, addText_mem]
  by_cases hstack : key = "stack"
  · subst hstack
    rw [if_pos rfl, if_pos rfl]
    cases record.stackInfo with
    | none => exact (if_neg (by decide)).to_iff.trans (hloop _)
    | some text => rfl
  · rw [if_neg hstack, if_neg hstack]
    by_cases hexc : key = "exc"
    · subst hexc
      rw [if_pos rfl, if_pos rfl]
      cases record.excInfo with
      | none => exact hloop _
      | some text => rfl
    · rw [if_neg hexc, if_neg hexc]
      exact hloop _

theorem visible_kept {key : String} {value : PyVal} (h : Visible record key value)
    (hover : ¬ Overwritten record key value) : (PyKey.str key, value) ∈ payload tx record := by
  refine (visible_mem h).mpr ?_
  cases hinfo : (if key = "stack" then record.stackInfo
    else if key = "exc" then record.excInfo else none) with
  | none => rfl
  | some text =>
    refine not_not.mp fun hne => hover ?_
    split at hinfo
    next hk => exact .inr ⟨hk, text, hinfo, hne⟩
    next =>
      split at hinfo
      next hk => exact .inl ⟨hk, text, hinfo, hne⟩
      next => cases hinfo

variable (tx) in
/-- JSON-like fields make a JSON-like payload. -/
theorem payload_jsonLike (h : ∀ field ∈ record.extra, field.2.JsonLike) :
    (PyVal.dict (payload tx record)).JsonLike := by
  constructor
  · intro kv hkv
    cases payload_shown kv hkv <;> exact ⟨_, rfl⟩
  · intro kv hkv
    cases payload_shown kv hkv with
    | field hv => exact h _ hv.1
    | text => exact .str _
    | hidden => exact .str _

/-- The payload holds the secrets of the visible fields that are still in it. -/
theorem payload_redacted_iff : (PyVal.dict (payload tx record)).Redacted ↔
    ∀ key value, Visible record key value → (PyKey.str key, value) ∈ payload tx record →
      value.Redacted := by
  constructor
  · intro h key value _ hm k u hu hs
    exact h k u (.deeper hm hu) hs
  · intro h k u hu hs
    have hstr : ∀ s : String, ¬ (PyVal.str s).Occurs k u := fun s ho => nomatch ho
    cases hu with
    | entry hm hk =>
      have hshown := payload_shown _ hm
      cases hshown with
      | field hv => rw [← Except.ok.inj hk, hv.2.2] at hs; cases hs
      | text _ hkey => rw [← Except.ok.inj hk, hkey] at hs; cases hs
      | hidden => rfl
    | deeper hm ho =>
      have hshown := payload_shown _ hm
      cases hshown with
      | field hv => exact h _ _ hv hm k u ho hs
      | text => exact absurd ho (hstr _)
      | hidden => exact absurd ho (hstr _)

end JsonFormatter

/-- `j` is an object with the member `key: value`. -/
def Json.Shows (tx : LogText) (j : Json) (key : String) (value : PyVal) : Prop :=
  ∃ items x, j = .obj items ∧ (key, x) ∈ items ∧ value.emit tx = .ok x

/-- A visible field appears exactly where nothing took its place. -/
theorem shows_iff {record : LogRecord} {key : String} {value : PyVal} {j : Json}
    (hv : Visible record key value) (hlike : value.JsonLike)
    (hj : JsonFormatter.format tx record = .ok j) :
    j.Shows tx key value ↔ ¬ Overwritten record key value := by
  obtain ⟨items, hitems, rfl⟩ := Except.map_ok hj
  constructor
  · rintro ⟨_, x, he, hx, hvalue⟩ hover
    obtain rfl := Json.obj.inj he
    obtain ⟨⟨key', u⟩, hm, hk, hu⟩ := forall₂_right (emitItems_ok hitems) hx
    have hkey : key' = .str key := by
      cases payload_shown _ hm <;> exact congrArg PyKey.str (Except.ok.inj hk)
    subst hkey
    have hu' := (visible_mem hv).mp hm
    have htext : ∀ text, u = .str text → value = .str text := by
      rintro text rfl
      exact hlike.emit_str (hvalue.trans hu.symm)
    rcases hover with ⟨rfl, text, hinfo, hne⟩ | ⟨rfl, text, hinfo, hne⟩
    · rw [if_neg (by decide), if_pos rfl, hinfo] at hu'
      exact hne (htext text hu')
    · rw [if_pos rfl, hinfo] at hu'
      exact hne (htext text hu')
  · intro hover
    have hm : (PyKey.str key, value) ∈ payload tx record := visible_kept hv hover
    obtain ⟨⟨name, x⟩, hx, hk, hval⟩ := forall₂_right (emitItems_ok hitems).flip hm
    exact ⟨items, x, rfl, Except.ok.inj hk ▸ hx, hval⟩

/-- **A record in the log.** -/
theorem format_clean_iff {record : LogRecord} (hlike : ∀ field ∈ record.extra, field.2.JsonLike) :
    ∃ j, JsonFormatter.format tx record = .ok j ∧
      ((j.Redacted ∧ ∀ key value, Visible record key value → j.Shows tx key value) ↔
        ∀ key value, Visible record key value →
          value.Redacted ∧ ¬ Overwritten record key value) := by
  have hpayload := payload_jsonLike tx hlike
  obtain ⟨j, hj⟩ := hpayload.emit_total tx
  refine ⟨j, hj, ?_⟩
  rw [emit_redacted_iff hpayload hj, payload_redacted_iff]
  constructor
  · rintro ⟨hred, hshow⟩ key value hv
    have hover := (shows_iff hv (hlike _ hv.1) hj).mp (hshow key value hv)
    exact ⟨hred key value hv (visible_kept hv hover), hover⟩
  · intro h
    exact ⟨fun key value hv _ => (h key value hv).1,
      fun key value hv => (shows_iff hv (hlike _ hv.1) hj).mpr (h key value hv).2⟩

/-! ## The record of a new run -/

theorem ofList_redacted_iff {items : List (String × PyVal)} :
    (PyVal.dict (Dict.ofList items)).Redacted ↔
      ∀ item ∈ items, (isSensitive item.1 = true → item.2 = .str redacted) ∧ item.2.Redacted := by
  constructor
  · intro h item hm
    have hentry : (PyKey.str item.1, item.2) ∈ Dict.ofList items := List.mem_map_of_mem hm
    exact ⟨h _ _ (.entry hentry rfl), fun k u hu => h k u (.deeper hentry hu)⟩
  · intro h k u hu hs
    cases hu with
    | entry hm hk =>
      obtain ⟨item, hi, he⟩ := List.mem_map.mp hm
      obtain ⟨rfl, rfl⟩ := Prod.mk.inj he
      obtain rfl := Except.ok.inj hk
      exact (h item hi).1 hs
    | deeper hm ho =>
      obtain ⟨item, hi, he⟩ := List.mem_map.mp hm
      obtain ⟨rfl, rfl⟩ := Prod.mk.inj he
      exact (h item hi).2 k u ho hs

theorem ofList_jsonLike {items : List (String × PyVal)} (h : ∀ item ∈ items, item.2.JsonLike) :
    (PyVal.dict (Dict.ofList items)).JsonLike := by
  refine .dict (fun kv hkv => ?_) fun kv hkv => ?_ <;>
    obtain ⟨item, hm, rfl⟩ := List.mem_map.mp hkv
  · exact ⟨_, rfl⟩
  · exact h item hm

/-- Scalars hold nothing under any key. -/
theorem redacted_of_scalar {v : PyVal} (h : ∀ k u, ¬ v.Occurs k u) : v.Redacted :=
  fun k u hu => absurd hu (h k u)

/-- The parts of a run record that come from outside. -/
structure RunRecord.Writable (run : RunRecord) : Prop where
  config : (PyVal.dict run.config).JsonLike
  envSnapshot : (PyVal.dict run.envSnapshot).JsonLike
  datasetHashes : (PyVal.dict run.datasetHashes).JsonLike

theorem asdict_jsonLike {run : RunRecord} (h : run.Writable) :
    (PyVal.dict (run.asdict tx)).JsonLike := by
  refine ofList_jsonLike ?_
  simp only [List.forall_mem_cons, List.not_mem_nil, false_implies, implies_true, and_true]
  refine ⟨.str _, .str _, .str _, h.config, .str _, h.envSnapshot, ?_, ?_, h.datasetHashes, ?_⟩
  · cases run.finishedAt with
    | none => exact .none
    | some t => exact .str _
  · cases run.seed with
    | none => exact .none
    | some seed => exact .int _
  · cases run.configHash with
    | none => exact .none
    | some hash => exact .str _

variable (tx) in
theorem asdict_redacted_iff {run : RunRecord} : (PyVal.dict (run.asdict tx)).Redacted ↔
    (PyVal.dict run.config).Redacted ∧ (PyVal.dict run.envSnapshot).Redacted ∧
      (PyVal.dict run.datasetHashes).Redacted := by
  have hkeys : ∀ item ∈ ["run_id", "name", "status", "config", "created_at", "env_snapshot",
      "finished_at", "seed", "dataset_hashes", "config_hash"], isSensitive item = false := by
    decide +kernel
  simp only [List.forall_mem_cons] at hkeys
  have hstr : ∀ s, (PyVal.str s).Redacted := fun s => redacted_of_scalar fun k u hu => nomatch hu
  have hfinished : ((run.finishedAt.map fun t => PyVal.str (tx.isoformat t)).getD .none).Redacted := by
    cases run.finishedAt <;> exact redacted_of_scalar fun k u hu => nomatch hu
  have hseed : ((run.seed.map PyVal.int).getD .none).Redacted := by
    cases run.seed <;> exact redacted_of_scalar fun k u hu => nomatch hu
  have hhash : ((run.configHash.map PyVal.str).getD .none).Redacted := by
    cases run.configHash <;> exact redacted_of_scalar fun k u hu => nomatch hu
  rw [RunRecord.asdict, ofList_redacted_iff]
  simp [hkeys, hstr, hfinished, hseed, hhash]

variable (tx) in
/-- **What `run_created` shows.** -/
theorem runCreatedLog_redacted_iff {run : RunRecord} (h : run.Writable) (now : Instant)
    (taskCount : Nat) : ∃ j, JsonFormatter.format tx (runCreatedLog tx now run taskCount) = .ok j ∧
      (j.Redacted ↔ (PyVal.dict run.config).Redacted ∧ (PyVal.dict run.envSnapshot).Redacted ∧
        (PyVal.dict run.datasetHashes).Redacted) := by
  have hlike : ∀ field ∈ (runCreatedLog tx now run taskCount).extra, field.2.JsonLike := by
    simp only [runCreatedLog, List.forall_mem_cons]
    exact ⟨.str _, .int _, asdict_jsonLike h, nofun⟩
  have hpayload := payload_jsonLike tx hlike
  obtain ⟨j, hj⟩ := hpayload.emit_total tx
  refine ⟨j, hj, ?_⟩
  rw [emit_redacted_iff hpayload hj, payload_redacted_iff, ← asdict_redacted_iff tx]
  have hvisible : Visible (runCreatedLog tx now run taskCount) "config" (.dict (run.asdict tx)) :=
    ⟨by simp [runCreatedLog], by decide +kernel, by decide +kernel⟩
  constructor
  · intro hall
    refine hall _ _ hvisible (visible_kept hvisible ?_)
    rintro (⟨hk, -⟩ | ⟨hk, -⟩) <;> exact absurd hk (by decide)
  · intro hred key value hv _
    have hm := hv.1
    simp only [runCreatedLog, List.mem_cons, Prod.mk.injEq, List.not_mem_nil, or_false] at hm
    rcases hm with ⟨-, rfl⟩ | ⟨-, rfl⟩ | ⟨-, rfl⟩
    · exact redacted_of_scalar fun k u hu => nomatch hu
    · exact redacted_of_scalar fun k u hu => nomatch hu
    · exact hred

/-! ## What `create_run` logs -/

mutual

/-- What `json.dumps` takes without a fallback is JSON-like. -/
theorem PyVal.jsonLike_of_dumps : ∀ (v : PyVal) (j : Json), v.dumps = .ok j → v.JsonLike
  | .none, _, _ => .none
  | .bool b, _, _ => .bool b
  | .int i, _, _ => .int i
  | .float f, _, _ => .float f
  | .str s, _, _ => .str s
  | .list xs, _, h => by
    rw [PyVal.dumps] at h
    obtain ⟨js, hjs, -⟩ := Except.map_ok h
    exact .list (jsonLike_of_dumpsList xs js hjs)
  | .dict items, _, h => by
    rw [PyVal.dumps] at h
    split at h
    · obtain ⟨ms, hms, -⟩ := Except.map_ok h
      have hall := jsonLike_of_dumpsItems items ms hms
      exact .dict (fun kv hkv => (hall kv hkv).1) fun kv hkv => (hall kv hkv).2
    · cases h
  | .mapping _, _, h | .obj _ _, _, h => by
    rw [PyVal.dumps] at h
    cases h

theorem jsonLike_of_dumpsList :
    ∀ (vs : List PyVal) (js : List Json), dumpsList vs = .ok js → ∀ v ∈ vs, v.JsonLike
  | [], _, _ => nofun
  | v :: vs, _, h => by
    rw [dumpsList] at h
    obtain ⟨j, hj, h⟩ := Except.bind_ok h
    obtain ⟨js, hjs, -⟩ := Except.bind_ok h
    exact List.forall_mem_cons.mpr ⟨v.jsonLike_of_dumps j hj, jsonLike_of_dumpsList vs js hjs⟩

theorem jsonLike_of_dumpsItems :
    ∀ (d : List (PyKey × PyVal)) (ms : List (PyKey × String × Json)), dumpsItems d = .ok ms →
      ∀ kv ∈ d, (∃ name, kv.1.jsonName = .ok name) ∧ kv.2.JsonLike
  | [], _, _ => nofun
  | (k, v) :: rest, _, h => by
    rw [dumpsItems] at h
    obtain ⟨name, hname, h⟩ := Except.bind_ok h
    obtain ⟨j, hj, h⟩ := Except.bind_ok h
    obtain ⟨ms, hms, -⟩ := Except.bind_ok h
    exact List.forall_mem_cons.mpr ⟨⟨⟨name, hname⟩, v.jsonLike_of_dumps j hj⟩,
      jsonLike_of_dumpsItems rest ms hms⟩

end

/-- The hashes of a config are part of it. -/
theorem datasetHashesOf_redacted {config : Dict} (h : (PyVal.dict config).Redacted) :
    (PyVal.dict (datasetHashesOf config)).Redacted := by
  have hbelow : ∀ key, (config.get key).Redacted := by
    intro key k u hu hs
    unfold Dict.get at hu
    cases hget : config.get? key with
    | none => rw [hget] at hu; cases hu
    | some v =>
      rw [hget] at hu
      exact h k u (.deeper (Dict.mem_of_get? hget) hu) hs
  unfold datasetHashesOf
  split
  · refine ofList_redacted_iff.mpr (List.forall_mem_singleton.mpr ⟨fun hs => ?_, hbelow _⟩)
    have hdefault : isSensitive "default" = false := by decide +kernel
    exact absurd hs (hdefault ▸ Bool.false_ne_true)
  · unfold Configs.section?
    have hdatasets := hbelow "datasets"
    split
    next d hd => rwa [hd] at hdatasets
    next => exact (@ofList_redacted_iff []).mpr nofun

theorem datasetHashesOf_jsonLike {config : Dict} (h : (PyVal.dict config).JsonLike) :
    (PyVal.dict (datasetHashesOf config)).JsonLike := by
  have hbelow : ∀ key, (config.get key).JsonLike := by
    intro key
    unfold Dict.get
    cases hget : config.get? key with
    | none => exact .none
    | some v =>
      cases h with | dict _ h => exact h _ (Dict.mem_of_get? hget)
  unfold datasetHashesOf
  split
  · exact ofList_jsonLike (List.forall_mem_singleton.mpr (hbelow _))
  · unfold Configs.section?
    have hdatasets := hbelow "datasets"
    split
    next d hd => rwa [hd] at hdatasets
    next => exact .dict nofun nofun

/-- Run records that are handed to the store are made from the config. -/
def HandsOver (config : Dict) (e : Effect) : Prop :=
  ∀ run, e = .store (.createRun run) → (PyVal.dict config).JsonLike ∧ run.config = config ∧
    run.datasetHashes = datasetHashesOf config

theorem createRun_handsOver (pf : Platform) (name : String) (config : Dict) (tasks : List Dict) :
    (createRun pf name config tasks).Only (HandsOver config) := by
  have hcall : ∀ op, HandsOver config (.store op) → (call op).Only (HandsOver config) := by
    intro op hop
    simp only [Only, wp_call]
    exact ⟨hop, fun r _ _ => by cases r <;> trivial⟩
  have hask : ∀ x, (ask x).Only (HandsOver config) := fun x => ⟨nofun, fun _ _ _ => trivial⟩
  refine only_bind (only_ofExcept _) fun seed =>
    only_bind (hask _) fun runId => ?_
  cases hhash : canonicalJsonHash pf config with
  | error e => trivial
  | ok hash =>
  obtain ⟨j, hj, -⟩ := Except.bind_ok hhash
  refine only_bind (only_ofExcept _) fun configHash =>
    only_bind (hask _) fun createdAt => only_bind (hask _) fun env =>
    only_bind (hcall _ ?_) fun _ => only_bind (hcall _ nofun) fun _ =>
    only_bind (only_ofExcept _) fun _ =>
    only_bind (hcall _ nofun) fun _ => only_bind (hcall _ nofun) fun _ =>
    only_bind ?_ fun _ => only_pure _
  · intro run he
    obtain rfl := StoreOp.createRun.inj (Effect.store.inj he)
    exact ⟨PyVal.jsonLike_of_dumps _ j hj, rfl, rfl⟩
  · refine (only_createTasks tasks 0).mono fun e he run hrun => ?_
    subst hrun
    exact he.elim

/-- **The log is as clean as what is put under the keys.** A record shows nothing under a
sensitive key and all of its visible fields exactly where these hold nothing under a sensitive
key at any depth and no traceback or stack replaces one. The record of a new run is clean exactly
where its config and its environment snapshot are. -/
theorem log_redacted_iff (tx : LogText) :
    (∀ record : LogRecord, (∀ field ∈ record.extra, field.2.JsonLike) →
      ∃ j, JsonFormatter.format tx record = .ok j ∧
        ((j.Redacted ∧ ∀ key value, Visible record key value → j.Shows tx key value) ↔
          ∀ key value, Visible record key value →
            value.Redacted ∧ ¬ Overwritten record key value)) ∧
    ∀ pf name config tasks, (createRun pf name config tasks).Only fun e =>
      ∀ run, e = .store (.createRun run) → (PyVal.dict run.envSnapshot).JsonLike → ∀ now,
        ∃ j, JsonFormatter.format tx (runCreatedLog tx now run tasks.length) = .ok j ∧
          (j.Redacted ↔ (PyVal.dict config).Redacted ∧ (PyVal.dict run.envSnapshot).Redacted) := by
  refine ⟨fun record => format_clean_iff, fun pf name config tasks => ?_⟩
  refine (createRun_handsOver pf name config tasks).mono fun e he run hrun henv now => ?_
  obtain ⟨hconfig, rfl, hhashes⟩ := he run hrun
  obtain ⟨j, hj, hiff⟩ := runCreatedLog_redacted_iff tx
    ⟨hconfig, henv, hhashes ▸ datasetHashesOf_jsonLike hconfig⟩ now tasks.length
  refine ⟨j, hj, hiff.trans ⟨fun h => ⟨h.1, h.2.1⟩, fun h => ⟨h.1, h.2, ?_⟩⟩⟩
  rw [hhashes]
  exact datasetHashesOf_redacted h.1

/-! ## A token in the config -/

/-- Instants in microseconds, and no objects of foreign classes. -/
def LogText.plain : LogText where
  jsonDefault v := .ok v.typeName
  isoformat t := toString t

/-- A config that `validate_run_config` accepts, with a token under its executor. -/
def tokenConfig : Dict :=
  Dict.ofList [("project", .dict (Dict.ofList [("name", .str "demo")])),
    ("executor", .dict (Dict.ofList [("hub_token", .str "hf_0a1b2c")])),
    ("artifacts", .dict (Dict.ofList [("root", .str "out")])),
    ("seed", .int 42), ("dataset_hash", .str "sha256:demo")]

/-- The token in a config. -/
def hubToken (config : Dict) : Option String :=
  match (Configs.section? config "executor").bind (·.get? "hub_token") with
  | some (.str s) => some s
  | _ => none

theorem not_redacted_of_hubToken {config : Dict} (h : (hubToken config).any (· ≠ redacted) = true) :
    ¬ (PyVal.dict config).Redacted := by
  intro hred
  obtain ⟨token, htoken, hne⟩ := Option.any_eq_true _ _ |>.mp h
  unfold hubToken at htoken
  split at htoken
  next s hs =>
    obtain ⟨d, hd, hget⟩ := Option.bind_eq_some_iff.mp hs
    have hexecutor : config.get "executor" = .dict d := by
      unfold Configs.section? at hd
      split at hd
      next d' hd' => rw [hd', Option.some.inj hd]
      next => cases hd
    have hin := Dict.mem_of_get hexecutor nofun
    have hs' := hred _ _ (.deeper hin (.entry (Dict.mem_of_get? hget) rfl)) (by decide +kernel)
    rw [PyVal.str.inj hs', Option.some.injEq] at htoken
    simp [← htoken] at hne
  next => cases htoken

/-- **A token in plaintext.** `create_run` accepts the config, and its `run_created` record shows
the token. -/
theorem hub_token_logged : ∃ run j, createdOn .memory tokenConfig = some run ∧
    JsonFormatter.format .plain (runCreatedLog .plain 0 run 0) = .ok j ∧ ¬ j.Redacted := by
  have hrun : (createdOn .memory tokenConfig).any (fun run =>
      (hubToken run.config).any (· ≠ redacted) && run.envSnapshot.isEmpty &&
        (PyVal.dict run.config).dumps.isOk && (PyVal.dict run.datasetHashes).dumps.isOk) = true := by
    decide +kernel
  obtain ⟨run, hr, h⟩ := Option.any_eq_true _ _ |>.mp hrun
  simp only [Bool.and_eq_true] at h
  obtain ⟨⟨⟨htoken, henv⟩, hconfig⟩, hhashes⟩ := h
  have hlike : ∀ v : PyVal, v.dumps.isOk = true → v.JsonLike := by
    intro v hv
    cases hd : v.dumps with
    | error e => rw [hd] at hv; cases hv
    | ok j => exact v.jsonLike_of_dumps j hd
  have henv : (PyVal.dict run.envSnapshot).JsonLike := by
    rw [List.isEmpty_iff.mp henv]
    exact .dict nofun nofun
  obtain ⟨j, hj, hiff⟩ := runCreatedLog_redacted_iff .plain
    ⟨hlike _ hconfig, henv, hlike _ hhashes⟩ 0 0
  exact ⟨run, j, hr, hj, fun hred => not_redacted_of_hubToken htoken (hiff.mp hred).1⟩

/-- A metric beside a token of its own. -/
def metricLog : LogRecord where
  created := 0
  name := "finetuneharness.worker"
  levelname := "INFO"
  message := "task_succeeded"
  extra := [("task_id", .str "t"), ("hf_token", .str "hf_0a1b2c"), ("pass_rate", .int 1)]

/-- Fields without nested keys are logged without secrets. -/
theorem flat_fields_redacted : ∃ j, JsonFormatter.format .plain metricLog = .ok j ∧ j.Redacted ∧
    j.Shows .plain "pass_rate" (.int 1) := by
  have hlike : ∀ field ∈ metricLog.extra, field.2.JsonLike := by
    simp only [metricLog, List.forall_mem_cons]
    exact ⟨.str _, .str _, .int _, nofun⟩
  have hvisible : Visible metricLog "pass_rate" (.int 1) :=
    ⟨by simp [metricLog], by decide +kernel, by decide +kernel⟩
  obtain ⟨j, hj, hiff⟩ := (log_redacted_iff .plain).1 metricLog hlike
  have hclean := hiff.mpr fun key value hv => by
    have hm := hv.1
    simp only [metricLog, List.mem_cons, Prod.mk.injEq, List.not_mem_nil, or_false] at hm
    rcases hm with ⟨rfl, rfl⟩ | ⟨rfl, rfl⟩ | ⟨rfl, rfl⟩ <;>
      exact ⟨redacted_of_scalar fun k u hu => (nomatch hu), by simp [Overwritten]⟩
  exact ⟨j, hj, hclean.1, hclean.2 _ _ hvisible⟩

end FineTuneHarness
