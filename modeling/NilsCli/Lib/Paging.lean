import Mathlib.Data.List.Count
import Mathlib.Data.List.Nodup

/-!
# Reading a changing list page by page

A reader asks for pages of a sorted list of keys. Each page is a part of the list as it is at that
request, from the first key after the place that the reader has reached; the last key of the page
is the next place.
-/

namespace Lib

variable {κ : Type}

structure Page (κ : Type) where
  listing : List κ
  rows : List κ

def After (before : κ → κ → Prop) (place : Option κ) (k : κ) : Prop :=
  ∀ p, place = some p → before p k

/-- The page is what follows the place; `rest` is what is left of the list after it. -/
structure PageAt (before : κ → κ → Prop) (place : Option κ) (page : Page κ) (rest : List κ) :
    Prop where
  sorted : page.listing.Pairwise before
  split : ∃ skipped, page.listing = skipped ++ (page.rows ++ rest) ∧
    ∀ k ∈ skipped, ¬ After before place k
  rows : ∀ k ∈ page.rows, After before place k

inductive Reading (before : κ → κ → Prop) : Option κ → List (Page κ) → Prop
  | last {place : Option κ} {page : Page κ} (h : PageAt before place page []) :
      Reading before place [page]
  | next {place : Option κ} {page : Page κ} {rest : List κ} {k : κ} {pages : List (Page κ)}
      (h : PageAt before place page rest) (hlast : page.rows.getLast? = some k)
      (hr : Reading before (some k) pages) : Reading before place (page :: pages)

variable {before : κ → κ → Prop} {place : Option κ} {page : Page κ} {rest : List κ} {k : κ}
  {pages pre post : List (Page κ)}

namespace PageAt

theorem rows_pairwise (h : PageAt before place page rest) :
    (page.rows ++ rest).Pairwise before := by
  obtain ⟨skipped, heq, -⟩ := h.split
  have hs := h.sorted
  rw [heq, List.pairwise_append] at hs
  exact hs.2.1

theorem mem (h : PageAt before place page rest) (hk : k ∈ page.listing)
    (ha : After before place k) : k ∈ page.rows ∨ k ∈ rest := by
  obtain ⟨skipped, heq, hskipped⟩ := h.split
  rw [heq, List.mem_append, List.mem_append] at hk
  exact hk.resolve_left fun hmem => hskipped k hmem ha

/-- What is left comes after the last key of the page. -/
theorem after_last (h : PageAt before place page rest) {last : κ}
    (hlast : page.rows.getLast? = some last) (hk : k ∈ rest) : before last k :=
  (List.pairwise_append.mp h.rows_pairwise).2.2 last (List.mem_of_getLast? hlast) k hk

end PageAt

namespace Reading

variable (htrans : ∀ a b c, before a b → before b c → before a c)

include htrans

theorem after (h : Reading before place pages) : ∀ k ∈ pages.flatMap (·.rows),
    After before place k := by
  induction h with
  | last h =>
    intro k hk
    rw [List.flatMap_singleton] at hk
    exact h.rows k hk
  | @next place page rest last pages h hlast hr ih =>
    intro k hk
    rw [List.flatMap_cons, List.mem_append] at hk
    rcases hk with hk | hk
    · exact h.rows k hk
    · intro p hp
      exact htrans _ _ _ (h.rows last (List.mem_of_getLast? hlast) p hp) (ih k hk last rfl)

theorem pairwise (h : Reading before place pages) :
    (pages.flatMap (·.rows)).Pairwise before := by
  induction h with
  | last h =>
    rw [List.flatMap_singleton]
    exact (List.pairwise_append.mp h.rows_pairwise).1
  | @next place page rest last pages h hlast hr ih =>
    have hrows := (List.pairwise_append.mp h.rows_pairwise).1
    rw [List.flatMap_cons, List.pairwise_append]
    refine ⟨hrows, ih, fun a ha b hb => ?_⟩
    have hb := hr.after htrans b hb last rfl
    obtain ⟨init, heq⟩ := List.getLast?_eq_some_iff.mp hlast
    rw [heq] at hrows ha
    rcases List.mem_append.mp ha with ha | ha
    · exact htrans _ _ _ ((List.pairwise_append.mp hrows).2.2 a ha last (by simp)) hb
    · rwa [List.mem_singleton.mp ha]

omit htrans

theorem complete (h : Reading before place pages) (ha : After before place k)
    (hall : ∀ page ∈ pages, k ∈ page.listing) : k ∈ pages.flatMap (·.rows) := by
  induction h with
  | last h =>
    rw [List.flatMap_singleton]
    exact (h.mem (hall _ (by simp)) ha).resolve_right List.not_mem_nil
  | @next place page rest last pages h hlast hr ih =>
    rw [List.flatMap_cons, List.mem_append]
    rcases h.mem (hall _ (by simp)) ha with hk | hk
    · exact .inl hk
    · refine .inr (ih ?_ fun page hp => hall page (by simp [hp]))
      rintro p hp
      cases hp
      exact h.after_last hlast hk

theorem complete_from (h : Reading before place (pre ++ post)) (hpost : post ≠ [])
    (ha : After before place k) (hpre : ∀ x ∈ pre.flatMap (·.rows), before x k)
    (hall : ∀ page ∈ post, k ∈ page.listing) : k ∈ post.flatMap (·.rows) := by
  induction pre generalizing place with
  | nil => exact h.complete ha hall
  | cons page pre ih =>
    rw [List.cons_append] at h
    generalize hpages : pre ++ post = pages at h
    cases h with
    | last h => simp [hpost] at hpages
    | @next _ _ rest last _ h hlast hr =>
      rw [← hpages] at hr
      refine ih hr ?_ fun x hx => hpre x (by rw [List.flatMap_cons]; simp [hx])
      rintro p hp
      cases hp
      refine hpre last ?_
      rw [List.flatMap_cons]
      exact List.mem_append_left _ (List.mem_of_getLast? hlast)

include htrans

theorem count_eq_one [BEq κ] [LawfulBEq κ] (hirrefl : ∀ a, ¬ before a a)
    (h : Reading before place (pre ++ post)) (hpost : post ≠ []) (ha : After before place k)
    (hpre : ∀ x ∈ pre.flatMap (·.rows), before x k) (hall : ∀ page ∈ post, k ∈ page.listing) :
    ((pre ++ post).flatMap (·.rows)).count k = 1 := by
  have hnodup : ((pre ++ post).flatMap (·.rows)).Nodup := by
    refine List.Pairwise.imp (fun hab heq => ?_) (h.pairwise htrans)
    exact hirrefl _ (heq ▸ hab)
  refine List.count_eq_one_of_mem hnodup ?_
  rw [List.flatMap_append, List.mem_append]
  exact .inr (h.complete_from hpost ha hpre hall)

end Reading

end Lib
