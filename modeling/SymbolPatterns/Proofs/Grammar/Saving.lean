import SymbolPatterns.Proofs.FileSystem.Saving
import SymbolPatterns.Proofs.Generation
import SymbolPatterns.Proofs.Text.Utf8

/-!
Printing settles a document: what is printed is read as the same document and
printed as the same text. A document that was just loaded is written exactly if
it is not in this state, and the write succeeds.
-/

namespace SymbolPatterns.Grammar.Document

open Json (OnlyIntegers)
open FileSystem (WorksIn IsName pathPieces steps DirectoryOf)

/-- The text that is printed for a document is printed again for what is read
from it, with the same unit unless the document is empty. The document has
been read itself, so each object in it has its keys once and the depth is
within reach. -/
theorem reread_pretty {path : Path} {text : String} {document : Document}
    (h : parse path text = .ok document) (hintegers : OnlyIntegers (.object document.root)) :
    ∃ again, parse path document.pretty = .ok again ∧ again.root = document.root ∧
      again.pretty = document.pretty ∧ again.isModified = false ∧
      (document.root ≠ [] → unitOf document.pretty.toList = unitOf text.toList) := by
  obtain ⟨rfl, rfl, hwithin⟩ := readWithin_of_parse h
  have hagain := parse_pretty document ⟨hwithin.wellFormed, hintegers⟩ hwithin.height_le
  have hsame : (⟨document.path, document.root, document.pretty⟩ : Document).pretty =
      document.pretty := by
    by_cases hroot : document.root = []
    · rw [pretty, pretty, hroot, Json.prettyText, Json.prettyText]
    · exact pretty_reread document hroot document.root
  refine ⟨_, hagain, rfl, hsame, ?_, fun hroot => ?_⟩
  · rw [isModified, hsame]
    simp
  · rw [pretty, String.toList_ofList]
    exact unitOf_prettyText (isUnit_unitOf _) hroot _

/-- The temporary file for a path is made in the directory that the path leads
to with all its pieces but the last. For a path of one piece this is the
working directory. -/
theorem directoryOf_directoryFor {path : Path} {front : List RawText} {name : RawText}
    (hpieces : pathPieces path = front ++ [name]) (hname : IsName name) :
    DirectoryOf (directoryFor path) path front := by
  obtain ⟨lead, last, hsplit, rfl, hlast⟩ := List.map_eq_append_iff.1 hpieces
  obtain ⟨octets, rfl, rfl⟩ := List.map_eq_singleton_iff.1 hlast
  obtain ⟨parent, hparent, hoctets, hcases⟩ := Path.exists_parent hsplit hname.isStep
  have hlead := FileSystem.steps_map_ofList lead
  unfold directoryFor
  rw [hparent]
  rcases hcases with ⟨hempty, hrelative, hnone⟩ | ⟨hne, habsolute, hsteps⟩
  · have hdot : (if parent.raw.isEmpty then (⟨"."⟩ : Path) else parent) = ⟨"."⟩ :=
      if_pos (RawText.isEmpty_iff.2 hempty)
    dsimp only
    rw [hdot]
    exact {
      notEmpty := by decide
      noZero := fun _ => by decide
      isAbsolute := hrelative.symm ▸ rfl
      steps := by rw [hlead, hnone]; rfl }
  · have hparent : (if parent.raw.isEmpty then (⟨"."⟩ : Path) else parent) = parent :=
      if_neg (mt RawText.isEmpty_iff.1 hne)
    dsimp only
    rw [hparent]
    exact {
      notEmpty := hne
      noZero := fun hzero hmem => hzero (hoctets _ hmem)
      isAbsolute := habsolute
      steps := by rw [pathPieces, FileSystem.steps_map_ofList, hsteps, hlead] }

/-- What loading a document says about its file: it holds the octets of the
text that was read. A file with octets that are no text does not load. -/
theorem read_of_load {fs : FileSystem} {path : Path} {document : Document}
    (h : load fs path = .ok document) :
    document.path = path ∧ fs.read path = .ok document.readText.toUTF8 := by
  unfold load at h
  split at h
  · cases h
  · next octets hread =>
    split at h
    · cases h
    · next text hdecode =>
      obtain ⟨hpath, htext, -⟩ := of_parse h
      refine ⟨hpath, ?_⟩
      rw [htext, Text.Utf8.toUTF8_of_decode hdecode, hread]

theorem isModified_eq_false_iff (document : Document) :
    document.isModified = false ↔ document.readText.toUTF8 = document.pretty.toUTF8 := by
  have hoctets : document.readText.toUTF8 = document.pretty.toUTF8 ↔
      document.readText = document.pretty := String.toByteArray_inj
  rw [hoctets, isModified, decide_eq_false_iff_not, not_not, eq_comm]

/-- Saving a document that was just loaded leaves the files as they are if it
is not modified. If it is modified and saving succeeds, its file is replaced,
and no other file is touched. -/
theorem saved_of_load {fs after : FileSystem} {path : Path} {document : Document} {written : Bool}
    (hload : load fs path = .ok document) (h : document.saveTo fs path = .ok (after, written)) :
    written = document.isModified ∧
      if written then fs.Replaced after path document.pretty.toUTF8 else after = fs := by
  obtain ⟨-, hread⟩ := read_of_load hload
  unfold saveTo at h
  rcases writeTo_cases hread document with ⟨failure, hwrite⟩ | ⟨hsame, hwrite⟩ |
    ⟨files, hdiffers, hwrite, hreplaced⟩
  · rw [hwrite] at h
    cases h
  · rw [hwrite] at h
    obtain ⟨rfl, rfl⟩ := Prod.mk.inj (Except.ok.inj h)
    exact ⟨((isModified_eq_false_iff document).2 hsame).symm, rfl⟩
  · rw [hwrite] at h
    obtain ⟨rfl, rfl⟩ := Prod.mk.inj (Except.ok.inj h)
    have hmodified : document.isModified = true :=
      Bool.of_not_eq_false (mt (isModified_eq_false_iff document).1 hdiffers)
    exact ⟨hmodified.symm, hreplaced⟩

/-- Saving a document that was just loaded succeeds if there is nothing to
write, or if its directory can be reached by way of the working directory.
Loading alone is not enough: the temporary file is made by a path from the
root, which has to lead through the working directory. -/
theorem save_succeeds_of_load {fs : FileSystem} {path : Path} {document : Document}
    (hload : load fs path = .ok document) (h : fs.WorksIn ∨ document.isModified = false) :
    ∃ after written, document.saveTo fs path = .ok (after, written) := by
  obtain ⟨-, hread⟩ := read_of_load hload
  unfold saveTo
  by_cases hsame : document.readText.toUTF8 = document.pretty.toUTF8
  · rw [writeTo_of_same (hsame ▸ hread)]
    exact ⟨fs, false, rfl⟩
  · have hwork : fs.WorksIn := h.resolve_right (mt (isModified_eq_false_iff document).1 hsame)
    obtain ⟨after, hreplace, -⟩ := FileSystem.replace_of_read hwork hread
      (fun _ _ => directoryOf_directoryFor) document.pretty.toUTF8
    rw [writeTo_of_differs hread hsame, hreplace]
    exact ⟨after, true, rfl⟩

/-- Printing is a fixed point of reading and printing: where the numbers of a
text are integers, what is printed for it is read as an equal document, which
is printed as the same text, shows the unit that it was printed with unless it
is empty, and is not modified. Saving a document that was just loaded writes
its file exactly if it is modified. Between loading and saving no one else is
taken to write. -/
theorem pretty_settles :
    (∀ {path : Path} {text : String} {document : Document}, parse path text = .ok document →
      OnlyIntegers (.object document.root) →
      ∃ again, parse path document.pretty = .ok again ∧ again.root = document.root ∧
        again.pretty = document.pretty ∧ again.isModified = false ∧
        (document.root ≠ [] → unitOf document.pretty.toList = unitOf text.toList)) ∧
    ∀ {fs : FileSystem} {path : Path} {document : Document}, load fs path = .ok document →
      (∀ {after : FileSystem} {written : Bool},
        document.saveTo fs document.path = .ok (after, written) →
        written = document.isModified ∧
          if written then fs.Replaced after path document.pretty.toUTF8 else after = fs) ∧
      (fs.WorksIn ∨ document.isModified = false →
        ∃ after written, document.saveTo fs document.path = .ok (after, written)) := by
  refine ⟨reread_pretty, fun hload => ?_⟩
  rw [(read_of_load hload).1]
  exact ⟨saved_of_load hload, save_succeeds_of_load hload⟩

/-- A grammar in three lines that are not the ones it is printed in. -/
def crowdedText : String := "\x7b\"a\": [1, -2],\n\t\"b\": \x7b\x7d\n\x7d"

def crowdedFiles : FileSystem where
  nodes := [(["work"], .directory), (["work", "g.json"], .file crowdedText.toUTF8)]
  workDir := ["work"]

def crowdedDocument : Document where
  path := ⟨"g.json"⟩
  root := [("a", .array [.number (.integer 1), .number (.integer (-2))]), ("b", .object [])]
  readText := crowdedText

theorem crowdedFiles_worksIn : crowdedFiles.WorksIn where
  inDirectory := rfl
  rooted := (FileSystem.rooted_nil crowdedFiles).snoc rfl "work"
  isName := List.forall_mem_singleton.2 ⟨by decide, by decide, by decide, by decide⟩
  spells := by decide

theorem crowdedFiles_load : load crowdedFiles ⟨"g.json"⟩ = .ok crowdedDocument := by
  have hplace : crowdedFiles.resolve .follow ⟨"g.json"⟩ = .ok ["work", "g.json"] :=
    eq_ok_of_toOption (by decide +kernel)
  have hread := FileSystem.read_eq_ok_iff.2 ⟨_, hplace, rfl⟩
  have hdecode : Text.Utf8.decode crowdedText.toUTF8.toList = .ok crowdedText := by
    rw [Text.Utf8.toList_eq_data]
    rfl
  unfold load
  rw [hread]
  dsimp only
  rw [hdecode]
  rfl

/-- The crowded grammar is written once, with the tab of its second line; its
values are spread over lines of their own. -/
theorem pretty_settles_crowded :
    (∃ again, parse ⟨"g.json"⟩ crowdedDocument.pretty = .ok again ∧
      again.root = crowdedDocument.root ∧ again.isModified = false ∧
      unitOf crowdedDocument.pretty.toList = ['\t']) ∧
    ∃ after, crowdedDocument.saveTo crowdedFiles ⟨"g.json"⟩ = .ok (after, true) ∧
      crowdedFiles.Replaced after ⟨"g.json"⟩ crowdedDocument.pretty.toUTF8 := by
  have hparse : parse ⟨"g.json"⟩ crowdedText = .ok crowdedDocument := rfl
  have hintegers : OnlyIntegers (.object crowdedDocument.root) := by
    simp [crowdedDocument, OnlyIntegers, Json.parts, Json.partsOfFields, Json.partsOfItems]
  have hmodified : crowdedDocument.isModified = true := by decide +kernel
  obtain ⟨again, hagain, hroot, -, hsettled, hunit⟩ := pretty_settles.1 hparse hintegers
  obtain ⟨hwritten, hsaves⟩ := pretty_settles.2 crowdedFiles_load
  obtain ⟨after, written, hsave⟩ := hsaves (.inl crowdedFiles_worksIn)
  obtain ⟨rfl, hreplaced⟩ := hwritten hsave
  rw [hmodified, if_pos rfl] at hreplaced
  rw [hmodified] at hsave
  refine ⟨⟨again, hagain, hroot, hsettled, ?_⟩, after, hsave, hreplaced⟩
  rw [hunit (by decide)]
  decide +kernel

end SymbolPatterns.Grammar.Document
