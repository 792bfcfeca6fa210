import LineBasic.Proofs.PrintedLiterals

/-!
The arguments of PRINT and their separators. A list is cut at the commas and semicolons behind
an even number of quotes, and each item is the trimmed text between two of them. So the
segments and the separators together are the text, and items that are trimmed, close their
literals and hold no separator outside of them are read back from what they are joined to.
-/

namespace LineBasic

open Text

theorem Separator.eq_char_of_ofChar? {c : Char} {separator : Separator}
    (h : ofChar? c = some separator) : c = separator.char := by
  unfold ofChar? at h
  split at h
  · next hcomma =>
    cases h
    exact hcomma
  · split at h
    · next hsemicolon =>
      cases h
      exact hsemicolon
    · cases h

namespace PrintItem

/-- Whether a list is cut at a character of a text, given with its place: a comma or a semicolon
behind an even number of quotes. -/
def cutsAt (cs : List Char) : Char × Nat → Bool
  | (c, k) => (c == ',' || c == ';') && decide (Even ((cs.take k).count '"'))

def separators (cs : List Char) : List Char := (cs.zipIdx.filter (cutsAt cs)).map Prod.fst

def segments (cs : List Char) : List (List Char) :=
  (cs.zipIdx.splitOnP (cutsAt cs)).map fun segment => segment.map Prod.fst

/-- The character behind the text of an item, if there is one. -/
def mark (item : PrintItem) : Option Char := item.separator.map Separator.char

def spelling (item : PrintItem) : List Char := item.text ++ item.mark.toList

structure IsTidy (item : PrintItem) : Prop where
  trimmed : trim item.text = item.text
  balanced : Even (item.text.count '"')
  whole : separators item.text = []

instance (item : PrintItem) : Decidable item.IsTidy :=
  decidable_of_iff
    (trim item.text = item.text ∧ Even (item.text.count '"') ∧ separators item.text = [])
    ⟨fun ⟨htrimmed, hbalanced, hwhole⟩ => ⟨htrimmed, hbalanced, hwhole⟩,
      fun h => ⟨h.trimmed, h.balanced, h.whole⟩⟩

structure AreTidy (items : List PrintItem) : Prop where
  tidy : ∀ item ∈ items, item.IsTidy
  separated : ∀ item ∈ items.dropLast, item.separator ≠ none
  last : ∀ item ∈ items.getLast?, item.separator = none → item.text ≠ []

section Cuts

variable {before cs : List Char} {c : Char} {item : PrintItem} {items : List PrintItem}

theorem map_text_consFirst (h : items ≠ []) :
    (consFirst c items).map text = (items.map text).modifyHead (c :: ·) := by
  cases items with
  | nil => exact absurd rfl h
  | cons item items => rfl

theorem map_mark_consFirst (h : items ≠ []) : (consFirst c items).map mark = items.map mark := by
  cases items with
  | nil => exact absurd rfl h
  | cons item items => rfl

theorem cutsAt_iff : cutsAt (before ++ c :: cs) (c, before.length) = true ↔
    quotedAfter false before = false ∧ ∃ separator : Separator, c = separator.char := by
  have htake : (before ++ c :: cs).take before.length = before := List.take_left
  rw [cutsAt, htake, Bool.and_eq_true, decide_eq_true_eq, quotedAfter_eq_false_iff, and_comm]
  refine and_congr_right fun _ => ?_
  constructor
  · intro h
    rcases Bool.or_eq_true_iff.mp h with hcomma | hsemicolon
    · exact ⟨.comma, beq_iff_eq.mp hcomma⟩
    · exact ⟨.semicolon, beq_iff_eq.mp hsemicolon⟩
  · rintro ⟨separator, rfl⟩
    cases separator <;> rfl

theorem cut_of_cutsAt (h : cutsAt (before ++ c :: cs) (c, before.length) = true) :
    ∃ separator : Separator, c = separator.char ∧ cut (quotedAfter false before) (c :: cs) =
      ⟨[], some separator⟩ :: cut (quotedAfter false (before ++ [c])) cs := by
  obtain ⟨hquoted, separator, rfl⟩ := cutsAt_iff.mp h
  have hbehind : quotedAfter false (before ++ [separator.char]) = false := by
    rw [quotedAfter_append, hquoted]
    cases separator <;> rfl
  exact ⟨separator, rfl, by rw [hquoted, hbehind, cut_separator]⟩

theorem cut_of_not_cutsAt (h : cutsAt (before ++ c :: cs) (c, before.length) = false) :
    cut (quotedAfter false before) (c :: cs) =
      consFirst c (cut (quotedAfter false (before ++ [c])) cs) := by
  rw [quotedAfter_append]
  refine cut_cons_of_text (or_iff_not_imp_right.mpr fun hsome => ?_)
  -- a separator that does not cut is inside a literal, and so is what follows it
  obtain ⟨separator, hseparator⟩ := Option.ne_none_iff_exists'.mp hsome
  have hc := Separator.eq_char_of_ofChar? hseparator
  have hquoted : quotedAfter false before ≠ false := fun hquoted =>
    Bool.false_ne_true (h.symm.trans (cutsAt_iff.mpr ⟨hquoted, separator, hc⟩))
  have hturn (quoted : Bool) : turn quoted c = quoted := by
    rw [hc]
    cases separator <;> rfl
  rw [hturn]
  exact Bool.eq_true_of_not_eq_false hquoted

/-- A part of a text is cut where the whole text is. The texts of its items are what stands
between these places, and behind each but the last stands the character of its place. -/
theorem map_cut (before cs : List Char) :
    (cut (quotedAfter false before) cs).map text =
        ((cs.zipIdx before.length).splitOnP (cutsAt (before ++ cs))).map
          (fun segment => segment.map Prod.fst) ∧
      (cut (quotedAfter false before) cs).map mark =
        ((cs.zipIdx before.length).filter (cutsAt (before ++ cs))).map (fun x => some x.1) ++
          [none] := by
  induction cs generalizing before with
  | nil => exact ⟨rfl, rfl⟩
  | cons c cs ih =>
    obtain ⟨htexts, hmarks⟩ := ih (before ++ [c])
    simp only [List.length_append, List.length_singleton, List.append_assoc,
      List.singleton_append] at htexts hmarks
    rw [List.zipIdx_cons, List.splitOnP_cons_eq_if_modifyHead]
    cases hcuts : cutsAt (before ++ c :: cs) (c, before.length) with
    | true =>
      obtain ⟨separator, hc, hcut⟩ := cut_of_cutsAt hcuts
      rw [hcut, List.map_cons, List.map_cons, htexts, hmarks, List.filter_cons_of_pos hcuts, hc]
      exact ⟨rfl, rfl⟩
    | false =>
      have hne := cut_ne_nil (quotedAfter false (before ++ [c])) cs
      obtain ⟨first, others, hsplit⟩ := List.exists_cons_of_ne_nil
        (List.splitOnP_ne_nil (cutsAt (before ++ c :: cs)) (cs.zipIdx (before.length + 1)))
      rw [cut_of_not_cutsAt hcuts, map_text_consFirst hne, map_mark_consFirst hne, htexts, hmarks,
        hsplit, List.filter_cons_of_neg (Bool.eq_false_iff.mp hcuts)]
      exact ⟨rfl, rfl⟩

theorem map_text_cut (cs : List Char) : (cut false cs).map text = segments cs :=
  (map_cut [] cs).1

theorem map_mark_cut (cs : List Char) :
    (cut false cs).map mark = (separators cs).map some ++ [none] := by
  rw [separators, List.map_map]
  exact (map_cut [] cs).2

/-- Behind its last separator a text has one more segment. -/
theorem exists_cut (cs : List Char) : ∃ front last, cut false cs = front ++ [⟨last, none⟩] ∧
    front.map mark = (separators cs).map some := by
  obtain ⟨front, back, hcut, hfront, hback⟩ := List.map_eq_append_iff.mp (map_mark_cut cs)
  obtain ⟨⟨last, separator⟩, rfl, hlast⟩ := List.map_eq_singleton_iff.mp hback
  obtain rfl : separator = none := Option.map_eq_none_iff.mp hlast
  exact ⟨front, last, hcut, hfront⟩

theorem separator_ne_none_of_mem {marks : List Char} (h : items.map mark = marks.map some)
    (hitem : item ∈ items) : item.separator ≠ none := by
  have hmark : item.mark ∈ marks.map some := h ▸ List.mem_map_of_mem hitem
  obtain ⟨c, -, hc⟩ := List.mem_map.mp hmark
  intro hnone
  rw [mark, hnone] at hc
  cases hc

/-- The items of a list are its trimmed segments with the separators behind them. The last
segment has none, and is left out if nothing is left of it. -/
theorem exists_items (cs : List Char) : ∃ (front : List PrintItem) (last : List Char),
    (segments cs).getLast? = some last ∧
      (segments cs).map trim = front.map text ++ [trim last] ∧
      front.map mark = (separators cs).map some ∧
      ofText cs = front ++ if trim last = [] then [] else [⟨trim last, none⟩] := by
  obtain ⟨front, last, hcut, hmarks⟩ := exists_cut cs
  refine ⟨front.map fun item => { item with text := trim item.text }, last, ?_, ?_, ?_, ?_⟩
  · rw [← map_text_cut, hcut, List.map_append, List.map_singleton, List.getLast?_concat]
  · rw [← map_text_cut, hcut, List.map_map, List.map_append, List.map_map]
    rfl
  · rw [List.map_map, ← hmarks]
    rfl
  · rw [ofText, hcut, List.map_append, List.filter_append, List.filter_eq_self.mpr]
    · by_cases hlast : trim last = [] <;> simp [hlast]
    · intro item hitem
      obtain ⟨raw, hraw, rfl⟩ := List.mem_map.mp hitem
      simp [Option.isSome_iff_ne_none, separator_ne_none_of_mem hmarks hraw]

theorem filterMap_mark_ofText (cs : List Char) : (ofText cs).filterMap mark = separators cs := by
  obtain ⟨front, last, -, -, hmarks, hitems⟩ := exists_items cs
  have hfront : front.filterMap mark = separators cs := by
    have hfilter := congrArg (List.filterMap id) hmarks
    simpa [List.filterMap_map] using hfilter
  rw [hitems, List.filterMap_append, hfront]
  split <;> simp [mark]

theorem map_text_ofText_isPrefix (cs : List Char) :
    (ofText cs).map text <+: (segments cs).map trim := by
  obtain ⟨front, last, -, htexts, -, hitems⟩ := exists_items cs
  rw [hitems, htexts, List.map_append]
  split
  · rw [List.map_nil, List.append_nil]
    exact List.prefix_append _ _
  · exact List.prefix_rfl

theorem separator_ne_none_of_mem_dropLast (h : item ∈ (ofText cs).dropLast) :
    item.separator ≠ none := by
  obtain ⟨front, last, -, -, hmarks, hitems⟩ := exists_items cs
  refine separator_ne_none_of_mem hmarks ?_
  rw [hitems] at h
  split at h
  · rw [List.append_nil] at h
    exact List.mem_of_mem_dropLast h
  · rwa [List.dropLast_concat] at h

/-- An item without a separator is the rest behind the last one, which is not blank. -/
theorem exists_separator_eq_none_iff (cs : List Char) :
    (∃ item ∈ ofText cs, item.separator = none) ↔
      ∃ last ∈ (segments cs).getLast?, ∃ c ∈ last, isBlank c = false := by
  obtain ⟨front, last, hlast, -, hmarks, hitems⟩ := exists_items cs
  have hrest : (∃ rest ∈ (segments cs).getLast?, ∃ c ∈ rest, isBlank c = false) ↔
      trim last ≠ [] := by
    rw [hlast, trim_ne_nil_iff]
    simp
  rw [hrest, hitems]
  constructor
  · rintro ⟨item, hitem, hnone⟩ hblank
    rw [if_pos hblank, List.append_nil] at hitem
    exact separator_ne_none_of_mem hmarks hitem hnone
  · intro hblank
    rw [if_neg hblank]
    exact ⟨_, List.mem_concat_self, rfl⟩

/-- The segments and the separators together are the text. -/
theorem flatten_segments (cs : List Char) :
    (List.zipWith (· ++ ·) (segments cs) ((separators cs).map ([·]) ++ [[]])).flatten = cs := by
  have hpieces := congrArg (List.map Prod.fst) (List.splitOnP_spec (p := cutsAt cs) cs.zipIdx)
  have hmarks : (separators cs).map ([·]) ++ [[]] =
      ((cs.zipIdx.filter (cutsAt cs)).map ([·]) ++ [[]]).map (List.map Prod.fst) := by
    simp [separators]
  rw [List.map_flatten, List.map_zipWith, List.zipIdx_map_fst] at hpieces
  rw [segments, hmarks, List.zipWith_map]
  simpa only [List.map_append] using hpieces

end Cuts

section Joins

variable {quoted : Bool} {content cs : List Char} {item next : PrintItem} {items : List PrintItem}

/-- A text that is cut nowhere goes to the first item of what follows it. -/
theorem cut_append_of_whole (h : cut quoted cs = [⟨content, none⟩]) (rest : List Char) :
    cut quoted (cs ++ rest) = cs.foldr consFirst (cut (quotedAfter quoted cs) rest) := by
  induction cs generalizing quoted content with
  | nil => rfl
  | cons c cs ih =>
    obtain ⟨⟨first, separator⟩, others, hrest⟩ :=
      List.exists_cons_of_ne_nil (cut_ne_nil (turn quoted c) cs)
    rw [cut_cons] at h
    rw [List.cons_append, cut_cons]
    split at h
    · cases h
    · rw [hrest] at h
      cases h
      rw [ih hrest]
      rfl

theorem cut_of_separators_eq_nil (h : separators cs = []) : cut false cs = [⟨cs, none⟩] := by
  obtain ⟨front, last, hcut, hmarks⟩ := exists_cut cs
  obtain rfl : front = [] := by simpa [h] using hmarks
  have hsegments := map_text_cut cs
  have hwhole := flatten_segments cs
  rw [hcut] at hsegments
  rw [← hsegments, h] at hwhole
  have hlast : last = cs := by simpa using hwhole
  rw [hcut, hlast, List.nil_append]

/-- A tidy item with a separator is read first. -/
theorem IsTidy.ofText_spelling_append (h : item.IsTidy) {separator : Separator}
    (hseparator : item.separator = some separator) (rest : List Char) :
    ofText (item.spelling ++ rest) = item :: ofText rest := by
  obtain ⟨content, _⟩ := item
  cases hseparator
  have hcut : cut false (content ++ separator.char :: rest) =
      ⟨content, some separator⟩ :: cut false rest := by
    rw [cut_append_of_whole (cut_of_separators_eq_nil h.whole),
      quotedAfter_eq_false_iff.mpr h.balanced, cut_separator, foldr_consFirst, List.append_nil]
  have htrim : trim content = content := h.trimmed
  simp [ofText, spelling, mark, hcut, htrim]

/-- A tidy item alone is read with its separator or, unless it is empty, without one. -/
theorem IsTidy.ofText_spelling (h : item.IsTidy)
    (hlast : item.separator = none → item.text ≠ []) : ofText item.spelling = [item] := by
  cases hseparator : item.separator with
  | some separator =>
    have hnil : ofText [] = [] := rfl
    simpa [hnil] using h.ofText_spelling_append hseparator []
  | none =>
    obtain ⟨content, _⟩ := item
    cases hseparator
    have hcut := cut_of_separators_eq_nil h.whole
    have htrim : trim content = content := h.trimmed
    have hne : content ≠ [] := hlast rfl
    simp [ofText, spelling, mark, hcut, htrim, hne]

theorem AreTidy.tail (h : AreTidy (item :: next :: items)) : AreTidy (next :: items) where
  tidy := fun x hx => h.tidy x (List.mem_cons_of_mem item hx)
  separated := fun x hx => h.separated x (List.mem_cons_of_mem item hx)
  last := fun x hx => h.last x hx

/-- Tidy items are read back from what they are joined to. -/
theorem AreTidy.ofText_flatMap_spelling (h : AreTidy items) :
    ofText (items.flatMap spelling) = items := by
  induction items with
  | nil => rfl
  | cons item items ih =>
    have hitem : item.IsTidy := h.tidy item List.mem_cons_self
    cases items with
    | nil => simpa using hitem.ofText_spelling (h.last item rfl)
    | cons next items =>
      obtain ⟨separator, hseparator⟩ :=
        Option.ne_none_iff_exists'.mp (h.separated item List.mem_cons_self)
      rw [List.flatMap_cons, hitem.ofText_spelling_append hseparator, ih h.tail]

end Joins

/-- A list of arguments is cut exactly at the commas and semicolons behind an even number of
quotes, and nothing of it gets lost. The separators of the items are these in their order, the
items are the trimmed segments between them, and the segments and the separators together are
the text. Only the last item may have no separator, and there is such an item exactly if what
follows the last separator is not blank. Tidy items are the items of what they are joined to. -/
theorem arguments_are_cut_at_separators :
    (∀ cs, (ofText cs).filterMap mark = separators cs ∧
      (ofText cs).map text <+: (segments cs).map trim ∧
      (List.zipWith (· ++ ·) (segments cs) ((separators cs).map ([·]) ++ [[]])).flatten = cs ∧
      (∀ item ∈ (ofText cs).dropLast, item.separator ≠ none) ∧
      ((∃ item ∈ ofText cs, item.separator = none) ↔
        ∃ last ∈ (segments cs).getLast?, ∃ c ∈ last, isBlank c = false)) ∧
    ∀ items, AreTidy items → ofText (items.flatMap spelling) = items := by
  refine ⟨fun cs => ?_, fun items h => h.ofText_flatMap_spelling⟩
  exact ⟨filterMap_mark_ofText cs, map_text_ofText_isPrefix cs, flatten_segments cs,
    fun item hitem => separator_ne_none_of_mem_dropLast hitem, exists_separator_eq_none_iff cs⟩

/-- Separators in a literal and behind a quote without a partner cut nothing, and one behind
another leaves an empty item. -/
theorem arguments_are_cut_at_separators_at_touchingSeparators :
    let cs := "\"a;b\" , c;; \"d,".toList
    let items : List PrintItem :=
      [⟨"\"a;b\"".toList, some .comma⟩, ⟨['c'], some .semicolon⟩, ⟨[], some .semicolon⟩,
        ⟨"d \",\"".toList, none⟩]
    (ofText cs).filterMap mark = [',', ';', ';'] ∧
      (ofText cs).map text <+: ["\"a;b\"".toList, ['c'], [], "\"d,".toList] ∧
      (∃ item ∈ ofText cs, item.separator = none) ∧
      AreTidy items ∧ ofText "\"a;b\",c;;d \",\"".toList = items := by
  intro cs items
  obtain ⟨hcut, hread⟩ := arguments_are_cut_at_separators
  obtain ⟨hseparators, htexts, -, -, hopen⟩ := hcut cs
  have hmarks : separators cs = [',', ';', ';'] := by decide +kernel
  have hsegments : (segments cs).map trim = ["\"a;b\"".toList, ['c'], [], "\"d,".toList] := by
    decide +kernel
  have hlast : (segments cs).getLast? = some " \"d,".toList := by decide +kernel
  have htidy : AreTidy items := by
    constructor
    · decide +kernel
    · simp [items]
    · simp [items]
  refine ⟨hseparators.trans hmarks, hsegments ▸ htexts, hopen.mpr ?_, htidy, ?_⟩
  · exact ⟨_, hlast, 'd', by decide, by decide⟩
  · have hspelling : items.flatMap spelling = "\"a;b\",c;;d \",\"".toList := by decide +kernel
    rw [← hspelling]
    exact hread items htidy

end PrintItem

end LineBasic
