import Varsten.Python.Json
import Varsten.Python.Text

/-!
# Incremental SSE decoders

The Anthropic, Gemini and OpenAI-to-client stream decoders. All three keep a
string buffer, decode and normalise every chunk by itself, and read the blocks
between blank lines; they differ in what they make of one block. Fed with a list
of chunks a decoder yields what one split of the joined chunk texts yields.
-/

namespace Varsten.Proxy.SseDecoder

open Python (Json)
open Python.Utf8 (Bytes Text decode)
open Python.Text

def eventField : Text := "event:".toList
def dataField : Text := "data:".toList
def doneMarker : Text := "[DONE]".toList

/-- `chunk.decode("utf-8", errors="replace").replace("\r\n", "\n")`. -/
def normalizeChunk (chunk : Bytes) : Text := replaceCrlf (decode chunk)

/-- One `feed` call on `self._buffer`; `parse` reads one block. -/
def feed {α : Type} (parse : Text → Option α) (buffer : Text) (chunk : Bytes) : List α × Text :=
  let blocks := splitBlank (buffer ++ normalizeChunk chunk)
  (blocks.dropLast.filterMap parse, blocks.getLastD [])

def feedAll {α : Type} (parse : Text → Option α) : Text → List Bytes → List α
  | _, [] => []
  | buffer, chunk :: chunks =>
    (feed parse buffer chunk).1 ++ feedAll parse (feed parse buffer chunk).2 chunks

/-! ## Blocks -/

def anthropicLine (acc : Option Text × List Text) (rawLine : Text) : Option Text × List Text :=
  let line := strip rawLine
  if startsWith line eventField then (some (strip (line.drop eventField.length)), acc.2)
  else if startsWith line dataField then
    (acc.1, acc.2 ++ [strip (line.drop dataField.length)])
  else acc

def anthropicBlock (block : Text) : Option (Option Text × Text) :=
  let (event, dataLines) := (splitlines block).foldl anthropicLine (none, [])
  if dataLines = [] then none else some (event, join ['\n'] dataLines)

def geminiLine (dataLines : List Text) (rawLine : Text) : List Text :=
  let line := strip rawLine
  if startsWith line dataField then
    let data := strip (line.drop dataField.length)
    if data = doneMarker then dataLines else dataLines ++ [data]
  else dataLines

def geminiBlock (block : Text) : Option Text :=
  let dataLines := (splitlines block).foldl geminiLine []
  if dataLines = [] then none else some (join ['\n'] dataLines)

def sseDataLine (lines : List Text) (rawLine : Text) : List Text :=
  let line := strip rawLine
  if startsWith line dataField then
    let data := strip (line.drop dataField.length)
    if data = [] ∨ data = doneMarker then lines else lines ++ [data]
  else lines

def sseDataLines (block : Text) : List Text := (splitlines block).foldl sseDataLine []

/-- `loads` is `json.loads`, `none` where it raises `JSONDecodeError`. -/
def openaiBlock (loads : Text → Option Json) (block : Text) : Option Json :=
  let dataLines := sseDataLines block
  if dataLines = [] then none
  else match loads (join ['\n'] dataLines) with
    | some (.obj fields) => some (.obj fields)
    | _ => none

def anthropicEvents (chunks : List Bytes) : List (Option Text × Text) :=
  feedAll anthropicBlock [] chunks

def geminiEvents (chunks : List Bytes) : List Text := feedAll geminiBlock [] chunks

def openaiEvents (loads : Text → Option Json) (chunks : List Bytes) : List Json :=
  feedAll (openaiBlock loads) [] chunks

/-! ## Feeding is splitting the joined texts -/

def text (chunks : List Bytes) : Text := chunks.flatMap normalizeChunk

@[simp] theorem text_nil : text [] = [] := rfl

theorem text_cons (c : Bytes) (cs : List Bytes) : text (c :: cs) = normalizeChunk c ++ text cs := rfl

@[simp] theorem normalize_nil : normalizeChunk [] = [] := rfl

def blocks (t : Text) : List Text := (splitBlank t).dropLast

theorem feedAll_eq {α : Type} (parse : Text → Option α) {buffer : Text} (chunks : List Bytes)
    (hb : splitBlank buffer = [buffer]) :
    feedAll parse buffer chunks = (blocks (buffer ++ text chunks)).filterMap parse := by
  induction chunks generalizing buffer with
  | nil => simp [feedAll, blocks, hb]
  | cons c cs ih =>
    have hl := splitBlank_getLast (buffer ++ normalizeChunk c)
    simp only [feedAll, feed]
    rw [ih hl, text_cons, ← List.append_assoc, blocks, blocks, splitBlank_append (buffer ++ normalizeChunk c) (text cs),
      List.dropLast_append_of_ne_nil (splitBlank_ne_nil _), List.filterMap_append]

theorem anthropicEvents_eq (chunks : List Bytes) :
    anthropicEvents chunks = (blocks (text chunks)).filterMap anthropicBlock :=
  feedAll_eq _ _ rfl

theorem geminiEvents_eq (chunks : List Bytes) :
    geminiEvents chunks = (blocks (text chunks)).filterMap geminiBlock :=
  feedAll_eq _ _ rfl

theorem openaiEvents_eq (loads : Text → Option Json) (chunks : List Bytes) :
    openaiEvents loads chunks = (blocks (text chunks)).filterMap (openaiBlock loads) :=
  feedAll_eq _ _ rfl

/-! ## What a block yields depends on its lines -/

theorem anthropicBlock_congr {a b : Text} (h : splitlines a = splitlines b) :
    anthropicBlock a = anthropicBlock b := by
  rw [anthropicBlock, anthropicBlock, h]

theorem geminiBlock_congr {a b : Text} (h : splitlines a = splitlines b) :
    geminiBlock a = geminiBlock b := by
  rw [geminiBlock, geminiBlock, h]

theorem openaiBlock_congr (loads : Text → Option Json) {a b : Text}
    (h : splitlines a = splitlines b) : openaiBlock loads a = openaiBlock loads b := by
  rw [openaiBlock, openaiBlock, sseDataLines, sseDataLines, h]

def lineData (rawLine : Text) : Option Text :=
  let line := strip rawLine
  if startsWith line dataField then some (strip (line.drop dataField.length)) else none

theorem not_both_fields {line : Text} (h : startsWith line eventField = true) :
    startsWith line dataField = false := by
  obtain ⟨rest, rfl⟩ := List.isPrefixOf_iff_prefix.1 h
  rfl

theorem foldl_anthropicLine (lines : List Text) (acc : Option Text × List Text) :
    (lines.foldl anthropicLine acc).2 = acc.2 ++ lines.filterMap lineData := by
  induction lines generalizing acc with
  | nil => simp
  | cons l ls ih =>
    rw [List.foldl_cons, ih]
    by_cases he : startsWith (strip l) eventField = true
    · simp [anthropicLine, lineData, he, not_both_fields he]
    · by_cases hd : startsWith (strip l) dataField = true
      · simp [anthropicLine, lineData, he, hd]
      · simp [anthropicLine, lineData, he, hd]

end Varsten.Proxy.SseDecoder
