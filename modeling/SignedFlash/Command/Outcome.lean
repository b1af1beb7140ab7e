import SignedFlash.Key.Pem
import SignedFlash.Log
import SignedFlash.Settings

/-!
# What commands read and give

A command reads files and gives log lines, printed text and a result. Everything is logged before
anything is printed. What is settled before any command runs, when the program is built, is the
library that decodes key files and whether there are keys built in.
-/

namespace SignedFlash

structure Build where
  decodePem : PemDecoder
  -- Whether the development keys are built in.
  developmentKeys : Bool

-- The reasons for which a file cannot be read.
inductive FileError where
  | notFound
  | permissionDenied
  -- The path leads through something that is no directory.
  | notDirectory
  | isDirectory
  -- A part of the path is too long.
  | nameTooLong
  | notText
  -- Any other reason, in the words of the system.
  | other (reason : String)
  deriving DecidableEq

def FileError.message : FileError → String
  | .notFound => "No such file or directory (os error 2)"
  | .permissionDenied => "Permission denied (os error 13)"
  | .notDirectory => "Not a directory (os error 20)"
  | .isDirectory => "Is a directory (os error 21)"
  | .nameTooLong => "File name too long (os error 36)"
  | .notText => "stream did not contain valid UTF-8"
  | .other reason => reason

-- The content of the files that a command may read, by path.
abbrev Files := String → Except FileError Bytes

def Files.text (files : Files) (path : String) : Except FileError String := do
  let bytes ← files path
  match String.fromUTF8? ⟨bytes.toArray⟩ with
  | some text => .ok text
  | none => .error .notText

/-- The bytes of a text in a file. -/
def textBytes (text : String) : Bytes := text.toUTF8.data.toList

theorem text_of_textBytes {files : Files} {path text : String}
    (hfile : files path = .ok (textBytes text)) : files.text path = .ok text := by
  have hbytes : (⟨(textBytes text).toArray⟩ : ByteArray) = text.toByteArray := by
    rw [textBytes, Array.toArray_toList]
    rfl
  have htext : String.fromUTF8? ⟨(textBytes text).toArray⟩ = some text := by
    rw [hbytes]
    exact dif_pos text.isValidUTF8
  simp [Files.text, hfile, htext, bind, Except.bind]

inductive CommandError where
  | imageUnreadable (path : String) (error : FileError)
  | configUnreadable (path : String) (error : FileError)
  -- The configuration is not TOML or has the wrong shape.
  | configMalformed (path : String)
  | keyTable (error : KeyTableError)
  | builtinKeys (fault : Fault)
  deriving DecidableEq

def CommandError.message : CommandError → String
  | .imageUnreadable path error => "Failed to read image " ++ path ++ ": " ++ error.message
  | .configUnreadable path error =>
    "Failed to read the config file " ++ path ++ ": " ++ error.message
  | .configMalformed path => "Failed to parse config file " ++ path
  | .keyTable error => error.message
  | .builtinKeys fault => "Built-in key table: " ++ fault.message

structure Outcome where
  log : List LogLine
  output : String
  -- Whether the command found what it was asked for, or why it failed.
  result : Except CommandError Bool

namespace Outcome

def failure (error : CommandError) : Outcome := ⟨[], "", .error error⟩

end Outcome

def printedLines (lines : List String) : String := String.join (lines.map (· ++ "\n"))

-- Reads a flash image and goes on with it.
def withImage (files : Files) (path : String) (run : Bytes → Outcome) : Outcome :=
  match files path with
  | .error error => .failure (.imageUnreadable path error)
  | .ok image => run image

end SignedFlash
