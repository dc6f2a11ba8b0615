import SymbolPatterns.Generation
import SymbolPatterns.Proofs.FileSystem.Replace
import SymbolPatterns.Proofs.Grammar.Document
import SymbolPatterns.Proofs.Outcome

/-!
What a run does to the files. Everything up to the patched document only reads;
the one write that follows replaces the grammar file as a whole or leaves the
files as they were.
-/

namespace SymbolPatterns

open Grammar

theorem Grammar.Document.load_ok {fs : FileSystem} {path : Path} {document : Document}
    (h : Document.load fs path = .ok document) :
    document.path = path ∧ ∃ octets, fs.read path = .ok octets := by
  unfold Document.load at h
  split at h
  · cases h
  · next octets hread =>
    split at h
    · cases h
    · exact ⟨(Document.of_parse h).1, octets, hread⟩

namespace Host

/-- The document that a run of some options prints: the grammar as it is read,
patched with the symbols of the sources as they are read. The run may still
fail when it comes to writing. -/
def Prints (host : Host) (options : Options) (document : Document) : Prop :=
  ∃ sources symbols grammar chunks,
    host.resolve options = .ok sources ∧ host.collect sources = .ok symbols ∧
      Document.load host.files options.grammarPath = .ok grammar ∧
      Patch.apply options symbols grammar.root = (document.root, .ok chunks) ∧
      document = { grammar with root := document.root }

/-- Preparing is the five steps of a run that only read, one after the other;
each needs what those before it have found. -/
theorem prepare_eq_ok_iff {host : Host} {options : Options} {prepared : Prepared} :
    host.prepare options = .ok prepared ↔
      options.validate = .ok () ∧ host.resolve options = .ok prepared.sources ∧
        host.collect prepared.sources = .ok prepared.symbols ∧
        ∃ grammar, Document.load host.files options.grammarPath = .ok grammar ∧
          Patch.apply options prepared.symbols grammar.root =
            (prepared.document.root, .ok prepared.chunks) ∧
          prepared.document = { grammar with root := prepared.document.root } := by
  constructor
  · intro h
    obtain ⟨⟨⟩, hvalid, h⟩ := bind_eq_ok h
    obtain ⟨sources, hsources, h⟩ := bind_eq_ok h
    obtain ⟨symbols, hsymbols, h⟩ := bind_eq_ok h
    obtain ⟨grammar, hgrammar, h⟩ := bind_eq_ok h
    obtain ⟨chunks, hchunks, h⟩ := bind_eq_ok h
    obtain rfl := Except.ok.inj h
    exact ⟨hvalid, hsources, hsymbols, grammar, hgrammar, Prod.ext rfl hchunks, rfl⟩
  · rintro ⟨hvalid, hsources, hsymbols, grammar, hgrammar, happly, hdocument⟩
    have houtcome :
        (Patch.apply options prepared.symbols grammar.root).2 = .ok prepared.chunks := by
      rw [happly]
    have hend : (⟨prepared.sources, prepared.symbols,
        { grammar with root := (Patch.apply options prepared.symbols grammar.root).1 },
        prepared.chunks⟩ : Prepared) = prepared := by
      rw [happly, ← hdocument]
    exact bind_ok hvalid (bind_ok hsources (bind_ok hsymbols (bind_ok hgrammar
      (bind_ok houtcome (congrArg Except.ok hend)))))

theorem prepare_ok {host : Host} {options : Options} {prepared : Prepared}
    (h : host.prepare options = .ok prepared) :
    options.validate = .ok () ∧ host.Prints options prepared.document := by
  obtain ⟨hvalid, hsources, hsymbols, grammar, hgrammar, happly, hdocument⟩ :=
    prepare_eq_ok_iff.1 h
  exact ⟨hvalid, prepared.sources, prepared.symbols, grammar, prepared.chunks, hsources, hsymbols,
    hgrammar, happly, hdocument⟩

/-- The document that a run writes is at the path of the grammar, where a file
can be read. So the run replaces a file and never makes a new one. -/
theorem Prints.readable {host : Host} {options : Options} {document : Document}
    (h : host.Prints options document) :
    document.path = options.grammarPath ∧
      ∃ octets, host.files.read options.grammarPath = .ok octets := by
  obtain ⟨-, -, grammar, -, -, -, hload, -, hdocument⟩ := h
  obtain ⟨hpath, hread⟩ := Document.load_ok hload
  rw [hdocument]
  exact ⟨hpath, hread⟩

end Host

private theorem sameOctets_iff (octets other : ByteArray) :
    (octets == other) = true ↔ octets = other := by
  rw [ByteArray.ext_iff]
  change (octets.data == other.data) = true ↔ octets.data = other.data
  exact beq_iff_eq

theorem Grammar.Document.writeTo_of_same {fs : FileSystem} {path : Path} {document : Document}
    (hread : fs.read path = .ok document.pretty.toUTF8) :
    document.writeTo fs path = (fs, .ok false) := by
  unfold writeTo
  simp only [hread, sameOctets_iff, if_true]

theorem Grammar.Document.writeTo_of_differs {fs : FileSystem} {path : Path} {octets : ByteArray}
    {document : Document} (hread : fs.read path = .ok octets)
    (hdiffers : octets ≠ document.pretty.toUTF8) :
    document.writeTo fs path =
      ((fs.replace (directoryFor path) path document.pretty.toUTF8).1,
        match (fs.replace (directoryFor path) path document.pretty.toUTF8).2 with
        | .ok () => .ok true
        | .error (place, cause) => .error (.access place cause)) := by
  unfold writeTo
  simp only [hread, sameOctets_iff, if_neg hdiffers]
  generalize fs.replace (directoryFor path) path document.pretty.toUTF8 = replaced
  obtain ⟨files, outcome⟩ := replaced
  cases outcome <;> rfl

/-- Writing a document where a file can be read is refused and changes
nothing, or finds the file up to date and changes nothing, or replaces a file
with other content. -/
theorem Grammar.Document.writeTo_cases {fs : FileSystem} {path : Path} {octets : ByteArray}
    (hread : fs.read path = .ok octets) (document : Document) :
    (∃ failure, document.writeTo fs path = (fs, .error failure)) ∨
      (octets = document.pretty.toUTF8 ∧ document.writeTo fs path = (fs, .ok false)) ∨
      ∃ after, octets ≠ document.pretty.toUTF8 ∧ document.writeTo fs path = (after, .ok true) ∧
        fs.Replaced after path document.pretty.toUTF8 := by
  by_cases hsame : octets = document.pretty.toUTF8
  · exact .inr (.inl ⟨hsame, writeTo_of_same (hsame ▸ hread)⟩)
  · rw [writeTo_of_differs hread hsame]
    rcases fs.replace_cases (directoryFor path) path document.pretty.toUTF8 with
      ⟨⟨place, cause⟩, hreplace⟩ | ⟨temporary, target, hfree, htarget, hreplace⟩
    · rw [hreplace]
      exact .inl ⟨.access place cause, rfl⟩
    · rw [hreplace]
      exact .inr (.inr ⟨_, hsame, rfl, FileSystem.replaced_setNode hread hfree htarget⟩)

/-- A run is all or nothing. A run that fails leaves the host as it was. A run
that succeeds without writing does so too, and the grammar file holds the
printed document already. A run that writes changes the entry of the grammar
path only: it held something else before and holds the printed document now.
Machines that stop in the middle of a write are not in the model; there it is
the rename that matters, which either takes place or does not. -/
theorem Host.run_all_or_nothing (host : Host) (options : Options) :
    match host.run options with
    | (after, .error _) => after = host
    | (after, .ok summary) =>
        ∃ document old, host.Prints options document ∧
          host.files.read options.grammarPath = .ok old ∧
          if summary.written then
            old ≠ document.pretty.toUTF8 ∧ after.settings = host.settings ∧
              host.files.Replaced after.files options.grammarPath document.pretty.toUTF8
          else old = document.pretty.toUTF8 ∧ after = host := by
  cases hprepare : host.prepare options with
  | error failure =>
      have hrun : host.run options = (host, .error failure) := by
        simp [run, hprepare]
      rw [hrun]
  | ok prepared =>
      obtain ⟨-, hprints⟩ := prepare_ok hprepare
      obtain ⟨hpath, old, hread⟩ := hprints.readable
      have hrun : host.run options =
          ({ host with files := (prepared.document.writeTo host.files options.grammarPath).1 },
            (prepared.document.writeTo host.files options.grammarPath).2.map
              prepared.summary) := by
        simp [run, hprepare, hpath]
      rw [hrun]
      rcases Grammar.Document.writeTo_cases hread prepared.document with
        ⟨failure, hwrite⟩ | ⟨hsame, hwrite⟩ | ⟨files, hdiffers, hwrite, hreplaced⟩
      · rw [hwrite]
        rfl
      · rw [hwrite]
        exact ⟨prepared.document, old, hprints, hread, hsame, rfl⟩
      · rw [hwrite]
        exact ⟨prepared.document, old, hprints, hread, hdiffers, rfl, hreplaced⟩

end SymbolPatterns
