import FineTuneHarness.Library.Assoc

/-!
# Registries

Values under names, each name entered once. A name that is known keeps its value, whatever is
entered after it.
-/
namespace Library

structure Registry (κ β : Type) where
  entries : List (κ × β)
  nodup : (entries.map (·.1)).Nodup

namespace Registry

variable {κ β : Type}

def empty : Registry κ β := ⟨[], List.nodup_nil⟩

def names (r : Registry κ β) : List κ := r.entries.map (·.1)

/-- The registry with one more entry. -/
def enter (r : Registry κ β) (k : κ) (b : β) (h : k ∉ r.names) : Registry κ β where
  entries := r.entries ++ [(k, b)]
  nodup := by
    rw [List.map_append]
    refine List.nodup_append.mpr ⟨r.nodup, List.pairwise_singleton _ k, ?_⟩
    intro a ha b hb hab
    rw [hab, List.mem_singleton.mp hb] at ha
    exact h ha

variable [DecidableEq κ] {r r' r'' : Registry κ β} {k k' : κ} {b : β}

/-- `registry.get(k)`. -/
def find (r : Registry κ β) (k : κ) : Option β := r.entries.lookup k

@[simp] theorem find_empty (k : κ) : (empty : Registry κ β).find k = none := rfl

theorem find_of_not_mem (h : k ∉ r.names) : r.find k = none := Assoc.lookup_of_not_mem h

theorem find_enter (h : k ∉ r.names) :
    (r.enter k b h).find k' = if k' = k then some b else r.find k' := by
  have hentries : (r.enter k b h).entries = Assoc.upsert k (fun _ => b) r.entries :=
    (Assoc.upsert_of_not_mem (fun _ => b) h).symm
  rw [find, hentries, Assoc.lookup_upsert]
  rfl

/-! ## Growing registries -/

/-- Every name that is known keeps its value. -/
def Extends (r r' : Registry κ β) : Prop := ∀ k b, r.find k = some b → r'.find k = some b

theorem Extends.refl (r : Registry κ β) : r.Extends r := fun _ _ h => h

theorem Extends.trans (h : r.Extends r') (h' : r'.Extends r'') : r.Extends r'' :=
  fun k b hk => h' k b (h k b hk)

theorem extends_enter (h : k ∉ r.names) : r.Extends (r.enter k b h) := by
  intro k' b' hk'
  have hne : k' ≠ k := by
    rintro rfl
    rw [find_of_not_mem h] at hk'
    cases hk'
  rw [find_enter, if_neg hne]
  exact hk'

end Registry

end Library
