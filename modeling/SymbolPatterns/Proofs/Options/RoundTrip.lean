import SymbolPatterns.CommandLine.Execution
import SymbolPatterns.Proofs.Json.Decoding
import SymbolPatterns.Proofs.Text.RawText

/-!
Options come back from their written forms. What is written holds every setting
that differs from what a missing field means, so that leaving out an unset one
is the same as writing it.
-/

namespace SymbolPatterns

open Json (Decoder)
open Json.Decoder (Reads reads_bool reads_list reads_natural reads_option reads_string reads_variant
  yields_any yields_list yields_natural yields_option)
open Json.Decoder.Record (Fills fills_field reads_field reads_record yields_field yields_record)

theorem MatchTarget.reads (target : MatchTarget) :
    Reads MatchTarget.decoder target.toJson target := by
  have hfills : Fills MatchTarget.record
      [("node", .string target.node), ("template", .string target.template)] {}
      ⟨some target.node, some target.template⟩ :=
    .cons rfl rfl (reads_field (reads_string _ _) _) <|
    .cons rfl rfl (reads_field (reads_string _ _) _) <| .nil _
  exact reads_record hfills rfl

theorem Layout.reads_placement (placement : Grammar.Placement) :
    Reads Layout.placementDecoder (.string (placementName placement)) placement := by
  cases placement with
  | before => exact reads_variant rfl
  | after => exact reads_variant rfl

theorem GeneratedGroup.reads (group : GeneratedGroup) :
    Reads GeneratedGroup.decoder group.toJson group := by
  have hfills : Fills GeneratedGroup.record
      [("group", .string group.group),
        ("parent", .string group.parent),
        ("anchor", .string group.anchor),
        ("placement", .string (placementName group.placement)),
        ("scope", .string group.scope),
        ("template", .string group.template)] {}
      ⟨some group.group, some group.parent, some group.anchor, some group.placement,
        some group.scope, some group.template⟩ :=
    .cons rfl rfl (reads_field (reads_string _ _) _) <|
    .cons rfl rfl (reads_field (reads_string _ _) _) <|
    .cons rfl rfl (reads_field (reads_string _ _) _) <|
    .cons rfl rfl (reads_field (Layout.reads_placement _) _) <|
    .cons rfl rfl (reads_field (reads_string _ _) _) <|
    .cons rfl rfl (reads_field (reads_string _ _) _) <| .nil _
  exact reads_record hfills rfl

theorem IncludeRule.reads (rule : IncludeRule) :
    Reads IncludeRule.decoder rule.toJson rule := by
  have hincludes : Reads (Decoder.list Layout.textDecoder) (.array (rule.includes.map .string))
      rule.includes := reads_list fun text _ => reads_string _ text
  have hfills : Fills IncludeRule.record
      [("includes", .array (rule.includes.map .string)), ("before", .string rule.before)] {}
      ⟨some rule.includes, some rule.before⟩ :=
    .cons rfl rfl (reads_field hincludes _) <|
    .cons rfl rfl (reads_field (reads_string _ _) _) <| .nil _
  exact reads_record hfills rfl

theorem Layout.reads (layout : Layout) : Reads Layout.decoder layout.toJson layout := by
  have horder : Reads (Decoder.list IncludeRule.decoder)
      (.array (layout.includeOrder.map IncludeRule.toJson)) layout.includeOrder :=
    reads_list fun rule _ => rule.reads
  have hfills : Fills Layout.record
      [("namespaces", layout.namespaces.toJson),
        ("types", layout.types.toJson),
        ("functions", layout.functions.toJson),
        ("includeOrder", .array (layout.includeOrder.map IncludeRule.toJson))] {}
      ⟨some layout.namespaces, some layout.types, some layout.functions,
        some layout.includeOrder⟩ :=
    .cons rfl rfl (reads_field layout.namespaces.reads _) <|
    .cons rfl rfl (reads_field layout.types.reads _) <|
    .cons rfl rfl (reads_field layout.functions.reads _) <|
    .cons rfl rfl (reads_field horder _) <| .nil _
  exact reads_record hfills rfl

namespace Options

theorem mem_paths_iff {options : Options} {path : Path} :
    path ∈ options.paths ↔ options.core = some path ∨ path ∈ options.game ∨
      options.header = some path ∨ path ∈ options.installDirs ∨ options.grammar = some path := by
  simp [paths]

/-- A path that is a text is read from it again. Other paths have no written
form at all, and writing them fails. -/
theorem reads_path {path : Path} (h : path.raw.isText = true) :
    Reads pathDecoder (pathJson path) path := by
  have hback : Path.mk path.text = path := congrArg Path.ofRaw (RawText.ofText_shown h)
  exact {
    value := bind_ok (reads_string "path string" path.text).value (congrArg Except.ok hback)
    text := fun gap text rest hgap htext hrest =>
      bind_ok ((reads_string "path string" path.text).text gap text rest hgap htext hrest)
        (congrArg (fun read => Except.ok (read, rest)) hback) }

theorem reads_paths {paths : List Path} (h : ∀ path ∈ paths, path.raw.isText = true) :
    Reads (Decoder.list pathDecoder) (.array (paths.map pathJson)) paths :=
  reads_list fun path hpath => reads_path (h path hpath)

/-- A setting that is left out is one that is not set. `next` tells the draft
that follows, in which the field is filled only if something is written. -/
theorem fills_optional {α β σ : Type} {r : Decoder.Record σ α} {name key : String} {d : Decoder β}
    {get : σ → Option (Option β)} {set : σ → Option β → σ} {alternatives : List String}
    {encode : β → Json} {setting : Option β} {s : σ} (next : Option β → σ)
    (hfield : r.field? key = some (.of name (Decoder.option d) get set alternatives))
    (hempty : get s = none) (hnone : next none = s)
    (hsome : ∀ x, next (some x) = set s (some x))
    (hreads : ∀ x, setting = some x → Reads d (encode x) x ∧ encode x ≠ .null) :
    Fills r (optionalField key (setting.map encode)) s (next setting) := by
  cases setting with
  | none =>
      rw [hnone]
      exact .nil s
  | some x =>
      obtain ⟨hx, hnull⟩ := hreads x rfl
      exact fills_field hfield hempty (hsome x).symm (reads_option hx hnull)

/-- The limit on one alternation is a number of 64 bits, if it is set. -/
def LimitFits (options : Options) : Prop :=
  ∀ limit, options.chunkLimit = some limit → limit ≤ Json.greatestInteger

/-- All paths that are set are texts. From the command line they may be other
octets. -/
def PathsAreTexts (options : Options) : Prop :=
  ∀ path ∈ options.paths, path.raw.isText = true

/-- Options that can be written and read again. What these two conditions
leave out cannot come back, so they are exact. -/
structure Writable (options : Options) : Prop where
  limitFits : options.LimitFits
  pathsAreTexts : options.PathsAreTexts

theorem getD_map_some {β : Type} (setting : Option β) :
    (setting.map some).getD none = setting := by
  cases setting <;> rfl

section

variable (options : Options)

/-- The draft that the written fields of options make up. -/
def written : Draft where
  core := options.core.map some
  game := some options.game
  header := options.header.map some
  installDirs := some options.installDirs
  includeHeaders := some options.includeHeaders
  grammar := options.grammar.map some
  chunkLimit := options.chunkLimit.map some
  layout := some options.layout

theorem complete_written : options.written.complete = options := by
  simp only [written, Draft.complete, getD_map_some, Option.getD_some]

/-- The fields are read in the order in which they are written, and each adds
its setting to the draft. A text with the fields in another order is read as
well, which is not needed here. -/
theorem fills_written (h : options.Writable) : Fills record options.fields {} options.written := by
  have hpath : ∀ path ∈ options.paths,
      Reads pathDecoder (pathJson path) path ∧ pathJson path ≠ .null :=
    fun path hmem => ⟨reads_path (h.pathsAreTexts path hmem), by simp [pathJson]⟩
  have hcore : ∀ d : Draft, d.core = none →
      Fills record (optionalField "core" (options.core.map pathJson)) d
        { d with core := options.core.map some } := fun d hd =>
    fills_optional (fun core => { d with core := core.map some }) rfl hd
      (by rw [Option.map_none, ← hd]) (fun _ => rfl)
      fun path hset => hpath path (mem_paths_iff.2 (.inl hset))
  have hgame : ∀ d : Draft, d.game = none →
      Fills record [("game", .array (options.game.map pathJson))] d
        { d with game := some options.game } := fun d hd =>
    fills_field rfl hd rfl <| reads_paths fun path hset =>
      h.pathsAreTexts path (mem_paths_iff.2 (.inr (.inl hset)))
  have hheader : ∀ d : Draft, d.header = none →
      Fills record (optionalField "header" (options.header.map pathJson)) d
        { d with header := options.header.map some } := fun d hd =>
    fills_optional (fun header => { d with header := header.map some }) rfl hd
      (by rw [Option.map_none, ← hd]) (fun _ => rfl)
      fun path hset => hpath path (mem_paths_iff.2 (.inr (.inr (.inl hset))))
  have hdirs : ∀ d : Draft, d.installDirs = none →
      Fills record [("openplanetDirs", .array (options.installDirs.map pathJson))] d
        { d with installDirs := some options.installDirs } := fun d hd =>
    fills_field rfl hd rfl <| reads_paths fun path hset =>
      h.pathsAreTexts path (mem_paths_iff.2 (.inr (.inr (.inr (.inl hset)))))
  have hheaders : ∀ d : Draft, d.includeHeaders = none →
      Fills record [("includeHeaders", .bool options.includeHeaders)] d
        { d with includeHeaders := some options.includeHeaders } := fun d hd =>
    fills_field rfl hd rfl (reads_bool options.includeHeaders)
  have hgrammar : ∀ d : Draft, d.grammar = none →
      Fills record (optionalField "grammar" (options.grammar.map pathJson)) d
        { d with grammar := options.grammar.map some } := fun d hd =>
    fills_optional (fun grammar => { d with grammar := grammar.map some }) rfl hd
      (by rw [Option.map_none, ← hd]) (fun _ => rfl)
      fun path hset => hpath path (mem_paths_iff.2 (.inr (.inr (.inr (.inr hset)))))
  have hlimit : ∀ d : Draft, d.chunkLimit = none →
      Fills record (optionalField "maxChunkLength"
        (options.chunkLimit.map fun n => .number (.integer n))) d
        { d with chunkLimit := options.chunkLimit.map some } := by
    intro d hd
    -- The fields turn the limit as an option into an integer; inside it, that is the same.
    have hcast : (options.chunkLimit.map fun n => .number (.integer n) : Option Json) =
        options.chunkLimit.map fun n : Nat => .number (.integer n) := by
      cases options.chunkLimit <;> rfl
    rw [hcast]
    exact fills_optional (fun limit => { d with chunkLimit := limit.map some }) rfl hd
      (by rw [Option.map_none, ← hd]) (fun _ => rfl)
      fun limit hset => ⟨reads_natural _ (h.limitFits limit hset), nofun⟩
  have hlayout : ∀ d : Draft, d.layout = none →
      Fills record [("layout", options.layout.toJson)] d
        { d with layout := some options.layout } := fun d hd =>
    fills_field rfl hd rfl options.layout.reads
  exact (((((hcore {} rfl).append (hgame _ rfl)).append (hheader _ rfl)).append
    ((hdirs _ rfl).append (hheaders _ rfl))).append (hgrammar _ rfl)).append
      (hlimit _ rfl) |>.append (hlayout _ rfl)

theorem reads (h : options.Writable) : Reads decoder options.toJson options :=
  reads_record (options.fills_written h) (congrArg Except.ok options.complete_written)

end

theorem yields_path : Json.Yields pathDecoder.text fun path => path.raw.isText = true := by
  intro text path rest hread
  obtain ⟨⟨spelled, behind⟩, -, hread⟩ := bind_eq_ok hread
  obtain ⟨rfl, -⟩ := Prod.mk.inj (Except.ok.inj hread)
  exact RawText.isText_ofText spelled

/-- What holds of the settings met so far: the limit is a number of 64 bits
and the paths are texts. A setting that is not met has its default. -/
def Draft.Fits (d : Draft) : Prop := d.complete.Writable

theorem Draft.fits_iff {d : Draft} :
    d.Fits ↔ (∀ limit, d.chunkLimit.getD none = some limit → limit ≤ Json.greatestInteger) ∧
      (∀ path, d.core.getD none = some path → path.raw.isText = true) ∧
      (∀ path ∈ d.game.getD [], path.raw.isText = true) ∧
      (∀ path, d.header.getD none = some path → path.raw.isText = true) ∧
      (∀ path ∈ d.installDirs.getD [], path.raw.isText = true) ∧
      (∀ path, d.grammar.getD none = some path → path.raw.isText = true) := by
  constructor
  · rintro ⟨hlimit, hpaths⟩
    simp only [PathsAreTexts, mem_paths_iff, or_imp, forall_and] at hpaths
    exact ⟨hlimit, hpaths⟩
  · rintro ⟨hlimit, hpaths⟩
    refine ⟨hlimit, ?_⟩
    simp only [PathsAreTexts, mem_paths_iff, or_imp, forall_and]
    exact hpaths

theorem yields_writable : Json.Yields decoder.text Writable := by
  have hfields : ∀ f ∈ record.fields, ∀ d, Draft.Fits d → Json.Yields (f.text d) Draft.Fits := by
    intro f hf d hd
    obtain ⟨hlimit, hcore, hgame, hheader, hdirs, hgrammar⟩ := Draft.fits_iff.1 hd
    simp only [record, List.mem_cons, List.not_mem_nil, or_false] at hf
    rcases hf with rfl | rfl | rfl | rfl | rfl | rfl | rfl | rfl
    · exact yields_field (yields_option yields_path) fun found hfound =>
        Draft.fits_iff.2 ⟨hlimit, hfound, hgame, hheader, hdirs, hgrammar⟩
    · exact yields_field (yields_list yields_path) fun found hfound =>
        Draft.fits_iff.2 ⟨hlimit, hcore, hfound, hheader, hdirs, hgrammar⟩
    · exact yields_field (yields_option yields_path) fun found hfound =>
        Draft.fits_iff.2 ⟨hlimit, hcore, hgame, hfound, hdirs, hgrammar⟩
    · exact yields_field (yields_list yields_path) fun found hfound =>
        Draft.fits_iff.2 ⟨hlimit, hcore, hgame, hheader, hfound, hgrammar⟩
    · exact yields_field (yields_any _) fun _ _ =>
        Draft.fits_iff.2 ⟨hlimit, hcore, hgame, hheader, hdirs, hgrammar⟩
    · exact yields_field (yields_option yields_path) fun found hfound =>
        Draft.fits_iff.2 ⟨hlimit, hcore, hgame, hheader, hdirs, hfound⟩
    · exact yields_field (yields_option (yields_natural _)) fun found hfound =>
        Draft.fits_iff.2 ⟨hfound, hcore, hgame, hheader, hdirs, hgrammar⟩
    · exact yields_field (yields_any _) fun _ _ =>
        Draft.fits_iff.2 ⟨hlimit, hcore, hgame, hheader, hdirs, hgrammar⟩
  have hempty : Draft.Fits {} := Draft.fits_iff.2 ⟨nofun, nofun, nofun, nofun, nofun, nofun⟩
  refine yields_record hempty hfields fun d options hd hfinish => ?_
  obtain rfl : d.complete = options := Except.ok.inj hfinish
  exact hd

/-- Whatever text options are read from, they can be written: a larger limit
is no integer there, and each path is a text. -/
theorem writable_of_parse {text : String} {options : Options} (h : parse text = .ok options) :
    options.Writable := by
  obtain ⟨⟨found, rest⟩, hread, h⟩ := bind_eq_ok h
  dsimp only at h
  split at h
  · obtain rfl := Except.ok.inj h
    exact yields_writable _ _ _ hread
  · cases h

/-- Options come back from each form in which they are written: as a value, as
a text without blanks, and as the text that is shown for a configuration. -/
structure ComesBack (options : Options) : Prop where
  value : ofJson options.toJson = .ok options
  compact : parse (Json.compact options.toJson) = .ok options
  shown : ∃ text, CommandLine.configText .json options.paths options.fields = .ok text ∧
    parse text = .ok options

theorem configText_eq_ok {options : Options} (h : options.PathsAreTexts) :
    CommandLine.configText .json options.paths options.fields =
      .ok (CommandLine.jsonText options.fields) := by
  have hpaths : (options.paths.all fun path => path.raw.isText) = true := List.all_eq_true.2 h
  rw [CommandLine.configText, CommandLine.checkPaths, if_pos hpaths]
  rfl

theorem comesBack_of_writable {options : Options} (h : options.Writable) : options.ComesBack := by
  have hreads := options.reads h
  have hindent : Json.IsGap [' ', ' '] := Json.isGap_cons rfl Json.isGap_space
  have hlineEnd : Json.IsGap ['\n'] := Json.isGap_cons rfl Json.isGap_nil
  constructor
  · exact hreads.value
  · have hcompact := hreads.text.whole (Json.written_compactText options.toJson) Json.isGap_nil
    rwa [List.append_nil] at hcompact
  · refine ⟨_, configText_eq_ok h.pathsAreTexts, ?_⟩
    have hshown := hreads.text.whole (Json.written_prettyText hindent options.toJson 0) hlineEnd
    have htext : CommandLine.jsonText options.fields =
        String.ofList (Json.prettyText [' ', ' '] 0 options.toJson ++ ['\n']) := by
      rw [String.ofList_append]
      rfl
    rw [htext]
    exact hshown

/-- Options come back from what is written for them, whatever their paths and
texts are and whichever settings are set, exactly when their limit is a number
of 64 bits and their paths are texts: a path of other octets has no written
form. Hence so do options that were read from a text, in whatever form: with
parts left out or `null`, under another name, or among fields that nobody
knows. Nothing is said of the text itself, which is not written again as it
was, nor of the other format in which a configuration is shown. -/
theorem written_comes_back (options : Options) :
    (options.ComesBack ↔ options.LimitFits ∧ options.PathsAreTexts) ∧
      ∀ text, parse text = .ok options → options.ComesBack := by
  refine ⟨⟨fun h => ?_, fun h => comesBack_of_writable ⟨h.1, h.2⟩⟩, fun text h => ?_⟩
  · have hwritable := writable_of_parse h.compact
    exact ⟨hwritable.limitFits, hwritable.pathsAreTexts⟩
  · exact comesBack_of_writable (writable_of_parse h)

/-- Options whose texts need escapes and whose limit is the greatest one. -/
def escapedOptions : Options where
  core := some ⟨"C:\\Openplanet\\\"Core\".json"⟩
  chunkLimit := some 18446744073709551615
  layout := { Layout.standard with
    includeOrder := [⟨["#\x00", "\t"], "#\x1f"⟩, ⟨[], ""⟩] }

/-- A text with another name for a list, a setting that is `null`, a field
that nobody knows and a layout without most of its parts. -/
def sparseText : String :=
  "\x7b\"next\": [\"OpenplanetNext.json\"], \"header\": null, \"notes\": [1, \x7b\x7d]," ++
    " \"maxChunkLength\": 500, \"layout\": \x7b\"includeOrder\": []\x7d\x7d"

def sparseOptions : Options where
  game := [⟨"OpenplanetNext.json"⟩]
  chunkLimit := some 500
  layout := { Layout.standard with includeOrder := [] }

theorem sparseText_comes_back :
    escapedOptions.LimitFits ∧ escapedOptions.PathsAreTexts ∧ escapedOptions.ComesBack ∧
      parse sparseText = .ok sparseOptions ∧ sparseOptions.ComesBack := by
  have hfits : escapedOptions.LimitFits := by
    intro limit hlimit
    obtain rfl := Option.some.inj hlimit
    decide
  have htexts : escapedOptions.PathsAreTexts := List.forall_mem_singleton.2 (by decide +kernel)
  have hparse : parse sparseText = .ok sparseOptions := eq_ok_of_toOption (by decide +kernel)
  exact ⟨hfits, htexts, (written_comes_back escapedOptions).1.2 ⟨hfits, htexts⟩, hparse,
    (written_comes_back sparseOptions).2 sparseText hparse⟩

end Options

end SymbolPatterns
