import BitPattern.Proofs.Grammar.Place
import BitPattern.Proofs.Report.Line

/-!
# Faults of lists of fields and of match sources have a place

Whatever is wrong with a list of fields or with a match source, the diagnostic carries the place of
an offset of the source that was given, and never none.  A fault of the grammar is placed where the
reader stands, and one that is found behind it, in a literal or in the qualifiers of a field, when
it comes up through the parser: `places_exact`.
-/

namespace BitPattern

open Grammar Report Text

/-- The diagnostic carries the place of an offset of a source. -/
def Report.Diagnostic.Located (d : Diagnostic) (file source : String) : Prop :=
  ∃ k : Int, 0 ≤ k ∧ k ≤ source.length ∧ d.span.Exact source k ∧ d.span.file = file ∧
    d.span.line ≠ 0

/-- The place of an offset is a place in the source, wherever the offset is. -/
lemma Report.Diagnostic.located_of_ofOffset {d : Diagnostic} {file source : String} {offset : Int}
    (h : d.span = Span.ofOffset file source offset) : d.Located file source := by
  have hexact := Span.ofOffset_exact file source offset
  rw [← h] at hexact
  refine ⟨_, by omega, by omega, hexact, by rw [h]; rfl, ?_⟩
  obtain ⟨before, after, -, hline, -⟩ := hexact
  omega

lemma readText_located {α : Type} {reader : Reader (Denoted α)} {what : String} {code : Code}
    {origin : Origin} {text : String} {d : Diagnostic}
    (h : readText reader what code origin text = .error d) :
    d.Located origin.file origin.source := by
  rw [readText] at h
  split at h
  · cases h
    exact Diagnostic.located_of_ofOffset rfl
  · cases h
    exact Diagnostic.located_of_ofOffset rfl
  · cases h

/-- A list of fields is refused with a place in the source that it stands in. -/
lemma Field.parseList_located {implicitInt : Bool} {origin : Origin} {text : String}
    {d : Diagnostic} (h : Field.parseList implicitInt origin text = .error d) :
    d.Located origin.file origin.source := by
  obtain ⟨k, cause, -, rfl⟩ := Field.parseList_eq_error.mp h
  exact Diagnostic.located_of_ofOffset rfl

/-- A match source is refused with a place in it, also where the fields of an arm are at fault. -/
lemma Case.parseSource_located {implicitInt : Bool} {file text : String} {d : Diagnostic}
    (h : Case.parseSource implicitInt file text = .error d) : d.Located file text := by
  rw [Case.parseSource, result_bind_eq_error] at h
  rcases h with h | ⟨arms, -, h⟩
  · have hlocated := readText_located h
    exact hlocated
  · obtain ⟨-, a, -, index, -, -, ha⟩ := Case.ofArms_eq_error h
    have hlocated := Field.parseList_located (Case.ofArm_eq_error.mp ha)
    exact hlocated

/-- **Places.**  The place of any offset is exact for the offset once it is moved into the source,
and every diagnostic for a match source or a list of fields has the place of an offset of the source
given, which is the list itself unless there is another one. -/
theorem places_exact :
    (∀ (file source : String) (offset : Int),
      (Span.ofOffset file source offset).file = file ∧
        (Span.ofOffset file source offset).Exact source (max 0 (min offset source.length))) ∧
      (∀ (implicitInt : Bool) (file text : String) (d : Diagnostic),
        Case.parseSource implicitInt file text = .error d → d.Located file text) ∧
      ∀ (implicitInt : Bool) (file source : String) (base : Int) (text : String) (d : Diagnostic),
        Field.parseList implicitInt (.within file source base text) text = .error d →
          d.Located file (if source.isEmpty then text else source) := by
  refine ⟨fun file source offset => ⟨rfl, Span.ofOffset_exact file source offset⟩, ?_, ?_⟩
  · intro implicitInt file text d h
    exact Case.parseSource_located h
  · intro implicitInt file source base text d h
    have hlocated := Field.parseList_located h
    exact hlocated

/-- A word in the second line that is no qualifier, and a literal without digits. -/
theorem places_exact_second :
    (∃ d, Case.parseSource true "m" "\n\"a:1:x\"->1" = .error d ∧
      d.Located "m" "\n\"a:1:x\"->1") ∧
      ∃ d, Field.parseList true (.within "m" "" (-3) "a:0x_") "a:0x_" = .error d ∧
        d.Located "m" "a:0x_" := by
  have harms : Reader.readAll source "\n\"a:1:x\"->1".toList =
      .ok (.ok [⟨9, [0x61, 0x3A, 0x31, 0x3A, 0x78], .int 1⟩]) := by decide +kernel
  have hqualifier : Field.parseList true ⟨"m", "\n\"a:1:x\"->1", 2⟩
      (latin [0x61, 0x3A, 0x31, 0x3A, 0x78]) =
        .error ((Diagnostic.ofCause (.unknownQualifier "x")).withSpan
          ⟨"m", 2, 2, "\"a:1:x\"->1"⟩) := by decide +kernel
  have hsource : Case.parseSource true "m" "\n\"a:1:x\"->1" = .error _ :=
    (Case.parseSource_of_read harms).trans
      (result_bind_eq_error.mpr (.inl (Case.ofArm_eq_error.mpr hqualifier)))
  have hfields : Field.parseList true (.within "m" "" (-3) "a:0x_") "a:0x_" =
      .error ((Diagnostic.ofCause (.malformed "Invalid integer literal" "0x_")).withSpan
        ⟨"m", 1, 1, "a:0x_"⟩) := by decide +kernel
  have hlocated := places_exact.2.2 true "m" "" (-3) "a:0x_" _ hfields
  rw [if_pos (by decide)] at hlocated
  exact ⟨⟨_, hsource, places_exact.2.1 true "m" _ _ hsource⟩, _, hfields, hlocated⟩

end BitPattern
