import SignedFlash.CivilTime
import SignedFlash.Command.Outcome
import SignedFlash.Scan

/-!
# The command `headerinfo`

Prints what the headers and manifests of a flash image say, or only the headers of one section.
-/

namespace SignedFlash

structure HeaderInfoRequest where
  image : String
  -- The only section to print, in any case of letters.
  sectionName : Option String
  deriving DecidableEq

def labelled (label value : String) : String :=
  "  " ++ label ++ String.ofList (List.replicate (13 - label.length) ' ') ++ ": " ++ value

def rangeText (first last : Word) : String :=
  Text.hexNumber first.toNat ++ ".." ++ Text.hexNumber last.toNat

def BoardId.text (b : BoardId) : String :=
  if b.isBlank then "any"
  else Text.hex 8 b.id.toNat ++ ":" ++ Text.hex 8 b.mask.toNat ++ ":" ++ Text.hex 8 b.flags.toNat

def Header.optionalLines (h : Header) : List String :=
  (if h.isNodeLocked then
    [labelled "node locked" (Text.hexWord h.deviceId0 ++ " " ++ Text.hexWord h.deviceId1)]
  else []) ++
  (if h.swapMark = 0 ∨ h.swapMark = paddingWord then []
  else
    [labelled "swap mark" ("size " ++ Text.hexNumber h.swapMarkSize.toNat ++ " at " ++
      Text.hexNumber h.swapMarkOffset.toNat)]) ++
  (match h.trailer with
    | .flashTrim values => [labelled "flash trim" (Text.hexWords " " values.toList)]
    | .extraSignature keyId _ _ =>
      if keyId = paddingWord then [] else [labelled "ext sig key" (Text.hexWord keyId)])

def Header.lines (h : Header) (offset : Nat) (family : Family) : List String := [
  "0x" ++ Text.hex 8 offset ++ ": " ++ family.name ++ " signed header",
  labelled "section" (family.sectionAt h.roBase).name,
  labelled "keyid" (Text.hexWord h.keyId ++
    (if h.signedForProduction then " (prod)" else " (dev)")),
  labelled "image size" (Text.hexNumber h.imageSize.toNat),
  labelled "ro" (rangeText h.roBase h.roMax),
  labelled "rx" (rangeText h.rxBase h.rxMax),
  labelled "entry point" ("+" ++ Text.hexNumber (h.rxBase - h.roBase).toNat),
  labelled "version" h.versionText,
  labelled "timestamp" (timestampText h.timestamp),
  labelled "img_chk" (Text.hexWord h.imageCheck),
  labelled "fuses_chk" (Text.hexWord h.fusesCheck),
  labelled "info_chk" (Text.hexWord h.infoCheck),
  labelled "fusemap" (Text.hexWords " " h.fuseMap.toList),
  labelled "infomap" (Text.hexWords " " h.infoMap.toList),
  labelled "config1" (Text.hexWord h.config1),
  labelled "applysec" (Text.hexWord h.applySec),
  labelled "board id" h.boardId.text,
  labelled "product" (if h.productFamily = 0 then "any" else Text.hexWord h.productFamily)] ++
  h.optionalLines

def manifestKindText : Option ManifestKind → String
  | some .romExt => "ROM_EXT"
  | some .ownerFirmware => "owner firmware"
  | none => "unknown"

def Manifest.lines (m : Manifest) (offset : Nat) : List String := [
  "0x" ++ Text.hex 8 offset ++ ": OpenTitan " ++ manifestKindText m.kind? ++ " manifest",
  labelled "key id" (Text.hexWord m.keyId),
  labelled "image size" (Text.hexNumber m.imageSize.toNat),
  labelled "code" (rangeText m.codeStart m.codeEnd),
  labelled "entry point" ("+" ++ Text.hexNumber m.entryPoint.toNat),
  labelled "version" (toString m.major.toNat ++ "." ++ toString m.minor.toNat ++ " (security " ++
    toString m.securityVersion.toNat ++ ")"),
  labelled "timestamp" (timestampText m.timestamp)]

-- Whether two texts are the same but for the case of ASCII letters.
def sameButCase (a b : String) : Bool :=
  a.toList.map Char.toLower == b.toList.map Char.toLower

/-- The lines on the candidate at a site. Asking for a section leaves all manifests out. -/
def candidateLines (sectionName : Option String) (site : Site) : List String :=
  match site.candidate with
  | .ok (.header h) =>
    match h.family? with
    | some family =>
      let name := (family.sectionAt h.roBase).name
      if sectionName.all (sameButCase name) then h.lines site.offset family else []
    | none => []
  | .ok (.manifest m) => if sectionName.isNone then m.lines site.offset else []
  | .error _ => []

def HeaderInfoRequest.run (request : HeaderInfoRequest) (files : Files) : Outcome :=
  withImage files request.image fun image =>
    let lines := (candidates image 0).flatMap (candidateLines request.sectionName)
    ⟨[], printedLines lines, .ok true⟩

end SignedFlash
