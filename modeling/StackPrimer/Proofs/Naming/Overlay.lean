import StackPrimer.Proofs.OnePass.Book

/-!
# Overlays are lists of layers

Layers are shared: one may lie in several overlays, and several times in one. Nothing about an overlay
matters but the list of its places from top to bottom. A name means what it means in the first of them that
has it; a new name goes into the first, whatever the others have. Overlays with the same list are the same,
then, however they have been put together. And a name means for ever what it was first given in a place.

A layer can be kept in two tables, one of phrases and one of entries. They always have the same names, and
nothing else can be seen of them than of one.

Results:
* `mount_eq`: giving a name a value looks at the topmost layer only.
* `Request.refused`, `Request.granted`: what is refused changes nothing, and what is granted changes one name
  of one layer.
* `find?_behind`: a name has the value that it was given first.
* `same_of_places`: overlays with the same places are the same.
* `Cabinet.Keeps.perform`: two tables come to the same as one.
* `reads_as_list`: all of this for requests made of new layers.
-/

namespace StackPrimer

namespace Overlay

variable {ι : Type}

/-! ## The list of places -/

/-- The topmost place, into which new names go. -/
def topmost : Overlay ι → ι
  | layer i => i
  | atop o _ => o.topmost

theorem head?_places (o : Overlay ι) : o.places.head? = some o.topmost := by
  induction o with
  | layer i => rfl
  | atop top rest ih _ => rw [places, List.head?_append, ih, topmost, Option.some_or]

theorem topmost_eq_of_places {o o' : Overlay ι} (h : o.places = o'.places) : o.topmost = o'.topmost := by
  have hhead := o.head?_places
  rw [h, o'.head?_places] at hhead
  exact (Option.some.inj hhead).symm

variable [DecidableEq ι]

/-- Giving a name a value looks at the topmost layer only. -/
theorem mount_eq {α : Type} (shelf : Shelf ι α) (o : Overlay ι) (key : String) (value : α) :
    o.mount shelf key value = ((shelf o.topmost).mount key value).map (shelf.set o.topmost) := by
  induction o with
  | layer i => rfl
  | atop top rest ih _ => exact ih

/-- There is no telling the overlays apart. -/
def Same (o o' : Overlay ι) : Prop := ∀ (shelf : Shelf ι Entry) (key : String),
  o.contains shelf key = o'.contains shelf key ∧ o.find? shelf key = o'.find? shelf key ∧
    ∀ e, o.mount shelf key e = o'.mount shelf key e

/-- Overlays with the same places are the same. -/
theorem same_of_places {o o' : Overlay ι} (h : o.places = o'.places) : o.Same o' := by
  intro shelf key
  have hfind : o.find? shelf key = o'.find? shelf key := by
    rw [find?_eq_findSome?, find?_eq_findSome?, h]
  refine ⟨?_, hfind, fun e => ?_⟩
  · rw [contains_eq_isSome, contains_eq_isSome, hfind]
  · rw [mount_eq, mount_eq, topmost_eq_of_places h]

/-! ## Requests -/

/-- That a name, which is mentioned in a phrase, means an entry in an overlay. -/
structure Request (ι : Type) where
  overlay : Overlay ι
  key : String
  phrase : Mention
  entry : Entry

namespace Request

/-- That an entry goes by the name by which it was introduced. -/
def define (o : Overlay ι) (e : Entry) : Request ι := ⟨o, e.mention.text, e.mention, e⟩

/-- How the request is answered, and the shelf behind it. -/
def perform (shelf : Shelf ι Entry) (r : Request ι) : Except AlreadyExists Entry × Shelf ι Entry :=
  match r.overlay.mount shelf r.key r.entry with
  | .ok shelf => (.ok r.entry, shelf)
  | .error e => (.error e, shelf)

/-- The meaning that the request is to give the name in the layer at a place, if it is about that. -/
def gives? (i : ι) (key : String) (r : Request ι) : Option Entry :=
  if r.overlay.topmost = i ∧ r.key = key then some r.entry else none

variable {shelf : Shelf ι Entry} {r : Request ι}

/-- A name that the topmost layer has is refused, and nothing changes. -/
theorem refused (h : (shelf r.overlay.topmost).contains r.key = true) :
    r.perform shelf = (.error ⟨r.key⟩, shelf) := by
  rw [perform, mount_eq, Layer.mount, if_pos h]
  rfl

/-- A name that the topmost layer does not have is granted, and is appended there. -/
theorem granted (h : (shelf r.overlay.topmost).contains r.key = false) :
    r.perform shelf = (.ok r.entry, shelf.set r.overlay.topmost
      ((shelf r.overlay.topmost).append r.key r.entry)) := by
  rw [perform, mount_eq, Layer.mount, h]
  rfl

/-- Behind a request a name means what it meant before, if anything, or else what the request gives it. -/
theorem find?_perform (shelf : Shelf ι Entry) (r : Request ι) (i : ι) (key : String) :
    ((r.perform shelf).2 i).find? key = ((shelf i).find? key).or (r.gives? i key) := by
  cases hthere : (shelf r.overlay.topmost).contains r.key with
  | true =>
    rw [refused hthere, gives?]
    split
    · rename_i h
      obtain ⟨rfl, rfl⟩ := h
      rw [Layer.contains_eq_isSome] at hthere
      obtain ⟨e, he⟩ := Option.isSome_iff_exists.mp hthere
      rw [he, Option.some_or]
    · rw [Option.or_none]
  | false =>
    have hnew : r.key ∉ (shelf r.overlay.topmost).names := by
      rwa [Layer.contains_eq, decide_eq_false_iff_not] at hthere
    have hset : (r.perform shelf).2 i = if i = r.overlay.topmost then
        (shelf r.overlay.topmost).append r.key r.entry else shelf i := by
      rw [granted hthere]
      rfl
    rw [hset, gives?]
    by_cases hi : i = r.overlay.topmost
    · subst hi
      rw [if_pos rfl, Layer.find?_append _ hnew]
      by_cases hkey : key = r.key
      · subst hkey
        rw [if_pos rfl, if_pos ⟨rfl, rfl⟩, (Layer.find?_eq_none_iff ..).mpr hnew, Option.none_or]
      · rw [if_neg hkey, if_neg (fun h => hkey h.2.symm), Option.or_none]
    · rw [if_neg hi, if_neg (fun h => hi h.1.symm), Option.or_none]

/-- A name that is granted means what it has been given. -/
theorem find?_of_granted (h : (shelf r.overlay.topmost).contains r.key = false) :
    r.overlay.find? (r.perform shelf).2 r.key = some r.entry := by
  obtain ⟨rest, hplaces⟩ := List.head?_eq_some_iff.mp r.overlay.head?_places
  have hnone : (shelf r.overlay.topmost).find? r.key = none := by
    rwa [Layer.contains_eq_isSome, Option.isSome_eq_false_iff, Option.isNone_iff_eq_none] at h
  rw [find?_eq_findSome?, hplaces, List.findSome?_cons, find?_perform, hnone, gives?,
    if_pos ⟨rfl, rfl⟩]
  rfl

/-- No other name is touched, in whatever overlay. -/
theorem find?_of_ne {key : String} (h : key ≠ r.key) (o : Overlay ι) :
    o.find? (r.perform shelf).2 key = o.find? shelf key := by
  rw [find?_eq_findSome?, find?_eq_findSome?]
  congr 1
  funext i
  rw [find?_perform, gives?, if_neg (fun hr => h hr.2.symm), Option.or_none]

end Request

/-- The shelf behind requests made one after the other. -/
def behind (shelf : Shelf ι Entry) (rs : List (Request ι)) : Shelf ι Entry :=
  rs.foldl (fun shelf r => (r.perform shelf).2) shelf

/-- A name has in a layer the meaning that it was given there first. -/
theorem find?_behind (shelf : Shelf ι Entry) (rs : List (Request ι)) (i : ι) (key : String) :
    (behind shelf rs i).find? key =
      ((shelf i).find? key).or (rs.findSome? (Request.gives? i key)) := by
  induction rs generalizing shelf with
  | nil => exact (Option.or_none ..).symm
  | cons r rs ih =>
    have hrest := ih (r.perform shelf).2
    rw [Request.find?_perform, Option.or_assoc] at hrest
    rw [behind, List.foldl_cons]
    refine hrest.trans (congrArg _ ?_)
    cases h : r.gives? i key <;> simp [h]

/-! ## Layers in two tables -/

/-- A layer in two tables: where each of its names is mentioned, and what it means. -/
structure Tables where
  phrases : List (String × Mention) := []
  entries : List (String × Entry) := []

namespace Tables

/-- The layer, as which it is read. -/
def layer (t : Tables) : Layer Entry := ⟨t.entries⟩

/-- The tables with one more name, if there is no phrase for it yet. -/
def mount (t : Tables) (key : String) (phrase : Mention) (e : Entry) :
    Except AlreadyExists Entry × Tables :=
  if t.phrases.any fun p => p.1 = key then (.error ⟨key⟩, t)
  else (.ok e, ⟨t.phrases ++ [(key, phrase)], t.entries ++ [(key, e)]⟩)

/-- Both tables have the same names. -/
def Even (t : Tables) : Prop := t.phrases.map (·.1) = t.entries.map (·.1)

theorem Even.any_eq {t : Tables} (h : t.Even) (key : String) :
    (t.phrases.any fun p => p.1 = key) = t.layer.contains key := by
  have hany : ∀ {β : Type} (xs : List (String × β)), (xs.any fun p => p.1 = key) =
      (xs.map (·.1)).any (· = key) := fun xs => by rw [List.any_map]; rfl
  rw [hany, h, Layer.contains, hany]
  rfl

end Tables

/-- The tables at each place. -/
abbrev Cabinet (ι : Type) := ι → Tables

namespace Cabinet

/-- How the request is answered from tables, and the tables behind it. -/
def perform (c : Cabinet ι) (r : Request ι) : Except AlreadyExists Entry × Cabinet ι :=
  let (answer, t) := (c r.overlay.topmost).mount r.key r.phrase r.entry
  (answer, fun i => if i = r.overlay.topmost then t else c i)

/-- The tables behind requests made one after the other. -/
def behind (c : Cabinet ι) (rs : List (Request ι)) : Cabinet ι :=
  rs.foldl (fun c r => (c.perform r).2) c

/-- The tables are read as the layers, and those of one place have the same names. -/
structure Keeps (c : Cabinet ι) (shelf : Shelf ι Entry) : Prop where
  layer : ∀ i, (c i).layer = shelf i
  even : ∀ i, (c i).Even

variable {c : Cabinet ι} {shelf : Shelf ι Entry}

/-- Tables answer as layers do, and stay in step with them. -/
theorem Keeps.perform (h : Keeps c shelf) (r : Request ι) :
    (c.perform r).1 = (r.perform shelf).1 ∧ Keeps (c.perform r).2 (r.perform shelf).2 := by
  have hany := (h.even r.overlay.topmost).any_eq r.key
  rw [h.layer] at hany
  cases hthere : (shelf r.overlay.topmost).contains r.key with
  | true =>
    rw [hthere] at hany
    have hsame : (c.perform r).2 = c := by
      funext i
      simp only [Cabinet.perform, Tables.mount, hany, if_true]
      split
      · rename_i hi
        rw [hi]
      · rfl
    rw [Request.refused hthere, hsame]
    exact ⟨by simp [Cabinet.perform, Tables.mount, hany], h⟩
  | false =>
    rw [hthere] at hany
    rw [Request.granted hthere]
    refine ⟨by simp [Cabinet.perform, Tables.mount, hany], fun i => ?_, fun i => ?_⟩
    · simp only [Cabinet.perform, Tables.mount, hany, Shelf.set, Bool.false_eq_true, if_false]
      split
      · rw [← h.layer]
        rfl
      · exact h.layer i
    · simp only [Cabinet.perform, Tables.mount, hany, Bool.false_eq_true, if_false]
      split
      · have heven := h.even r.overlay.topmost
        rw [Tables.Even] at heven ⊢
        rw [List.map_append, List.map_append, heven]
        rfl
      · exact h.even i

theorem Keeps.behind (h : Keeps c shelf) (rs : List (Request ι)) :
    Keeps (c.behind rs) (Overlay.behind shelf rs) := by
  induction rs generalizing c shelf with
  | nil => exact h
  | cons r rs ih => exact ih (h.perform r).2

end Cabinet

/-! ## Any requests of new layers -/

/-- How a shelf reads on which requests have been made of new layers, and how the next one changes that. -/
structure ReadsAsList (rs : List (Request ι)) (shelf : Shelf ι Entry) : Prop where
  /-- A name has in a layer the meaning that it was given there first. -/
  layer : ∀ i key, (shelf i).find? key = rs.findSome? (Request.gives? i key)
  /-- It means in an overlay what it means in the first layer that has it. -/
  find : ∀ (o : Overlay ι) key, o.find? shelf key = o.places.findSome? fun i => (shelf i).find? key
  contains : ∀ (o : Overlay ι) key, o.contains shelf key = true ↔ o.find? shelf key ≠ none
  /-- It is refused exactly if the first layer has it. -/
  refused : ∀ r : Request ι, (shelf r.overlay.topmost).contains r.key = true →
    r.perform shelf = (.error ⟨r.key⟩, shelf)
  granted : ∀ r : Request ι, (shelf r.overlay.topmost).contains r.key = false →
    (r.perform shelf).1 = .ok r.entry ∧
      r.overlay.find? (r.perform shelf).2 r.key = some r.entry ∧
      ∀ (o : Overlay ι) key, key ≠ r.key → o.find? (r.perform shelf).2 key = o.find? shelf key

/-- Whatever is asked of new layers, through whatever overlays: an overlay reads as the list of its places, of
which the topmost one is the first. Overlays with the same places are the same, and so it does not matter in
which order layers are put atop one another. Layers that are kept in two tables have the same names in both,
read the same, and give the same answers. -/
theorem reads_as_list (rs : List (Request ι)) :
    let shelf : Shelf ι Entry := behind (fun _ => {}) rs
    let cabinet : Cabinet ι := Cabinet.behind (fun _ => {}) rs
    ReadsAsList rs shelf ∧
      (∀ o : Overlay ι, o.places.head? = some o.topmost) ∧
      (∀ o o' : Overlay ι, o.places = o'.places → o.Same o') ∧
      (∀ a b c : Overlay ι, ((a.atop b).atop c).Same (a.atop (b.atop c))) ∧
      cabinet.Keeps shelf ∧ ∀ r, (cabinet.perform r).1 = (r.perform shelf).1 := by
  intro shelf cabinet
  have hempty : Cabinet.Keeps (fun _ : ι => {}) fun _ => {} := ⟨fun _ => rfl, fun _ => rfl⟩
  have hkeeps : cabinet.Keeps shelf := hempty.behind rs
  refine ⟨?_, head?_places, fun o o' => same_of_places, fun a b c => ?_, hkeeps,
    fun r => (hkeeps.perform r).1⟩
  · exact
      { layer := fun i key => (find?_behind ..).trans (Option.none_or ..)
        find := fun o key => o.find?_eq_findSome? ..
        contains := fun o key => by rw [contains_eq_isSome, Option.isSome_iff_ne_none]
        refused := fun r => Request.refused
        granted := fun r h => ⟨by rw [Request.granted h], Request.find?_of_granted h,
          fun o key hkey => Request.find?_of_ne hkey o⟩ }
  · exact same_of_places (List.append_assoc ..)

/-- A global of some name. -/
def globalEntry : Entry := .variable ⟨⟨"a", none⟩, 0, .global⟩

/-- A local of the same name. -/
def localEntry : Entry := .variable ⟨⟨"a", none⟩, 0, .function⟩

/-- The name is given to the global in one layer and to the local in a layer atop it, where the global is then
refused. In the layer beneath, the local has one more name. -/
def shadowingRequests : List (Request Nat) :=
  [.define (.layer 0) globalEntry, .define (.atop (.layer 1) (.layer 0)) localEntry,
    .define (.atop (.layer 1) (.layer 1)) globalEntry, ⟨.layer 0, "b", ⟨"a", none⟩, localEntry⟩]

/-- Whichever layer is on top shadows the other one. A name that the topmost layer has is refused, and one that
only the layer beneath has is granted. -/
theorem reads_as_list_shadowed :
    let shelf : Shelf Nat Entry := behind (fun _ => {}) shadowingRequests
    find? shelf (.atop (.layer 1) (.layer 0)) "a" = some localEntry ∧
      find? shelf (.atop (.layer 0) (.layer 1)) "a" = some globalEntry ∧
      (Request.define (.layer 1) globalEntry).perform shelf = (.error ⟨"a"⟩, shelf) ∧
      (Request.perform shelf ⟨.atop (.layer 1) (.layer 0), "b", ⟨"b", none⟩, globalEntry⟩).1 =
        .ok globalEntry := by
  intro shelf
  obtain ⟨hreads, -⟩ := reads_as_list shadowingRequests
  refine ⟨?_, ?_, hreads.refused _ (by decide), (hreads.granted _ (by decide)).1⟩
  · rw [hreads.find, places, places, places, List.singleton_append, List.findSome?_cons, hreads.layer]
    rfl
  · rw [hreads.find, places, places, places, List.singleton_append, List.findSome?_cons, hreads.layer]
    rfl

end Overlay

end StackPrimer
