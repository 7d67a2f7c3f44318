import Logbook.Template.Cache

/-! A cache of templates only saves work. Main statement: however it was used before, it gives for every text the
    template that the text compiles to. -/

namespace Logbook
namespace TemplateCache

/-- The cache after templates were looked up one after the other. -/
def run (c : TemplateCache) : List String → TemplateCache
  | [] => c
  | source :: sources => (c.get source).2.run sources

/-- A cache that some use leads to, from an empty one of whatever capacity. -/
def Reachable (c : TemplateCache) : Prop :=
  ∃ capacity sources, c = (empty capacity).run sources

/-- Every template is kept with the text that it was compiled from. -/
def Faithful (c : TemplateCache) : Prop :=
  ∀ entry ∈ c.entries, entry.2 = Template.compile entry.1

theorem Faithful.find? {c : TemplateCache} (h : c.Faithful) {source : String} {template : Template}
    (hfind : c.find? source = some template) : template = Template.compile source := by
  obtain ⟨before, after, hentries, -⟩ := List.lookup_eq_some_iff.mp hfind
  exact h (source, template) (by simp [hentries])

theorem Faithful.get_fst {c : TemplateCache} (h : c.Faithful) (source : String) :
    (c.get source).1 = Template.compile source := by
  unfold get
  split
  · next template hfind => exact h.find? hfind
  · rfl

theorem Faithful.get_snd {c : TemplateCache} (h : c.Faithful) (source : String) : (c.get source).2.Faithful := by
  unfold get
  split
  · exact h
  · intro entry hentry
    rcases List.mem_cons.mp hentry with rfl | hentry
    · rfl
    · split at hentry
      · cases hentry
      · exact h entry hentry

theorem Faithful.run {c : TemplateCache} (h : c.Faithful) (sources : List String) : (c.run sources).Faithful := by
  induction sources generalizing c with
  | nil => exact h
  | cons source sources ih => exact ih (h.get_snd source)

theorem Reachable.faithful {c : TemplateCache} (h : c.Reachable) : c.Faithful := by
  obtain ⟨capacity, sources, rfl⟩ := h
  exact Faithful.run (fun entry hentry => by cases hentry) sources

end TemplateCache
end Logbook
