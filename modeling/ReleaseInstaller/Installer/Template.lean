import ReleaseInstaller.Installer.Script
import ReleaseInstaller.Template

/-! The template of installers. Where nothing depends on a condition, it has the lines of an installer
whose values are the names of their variables. -/
namespace ReleaseInstaller.Installer
open Template Text

/-- The installer whose values are the names under which a template knows them. -/
def named : Installer where
  version := "binfetch_version"
  generatedAt := some "generated_at"
  projectName := "project_name"
  owner := "owner"
  repo := "repo"
  repoUrl := "repo_url"
  binary := "binary"
  binaries := ["binary"]
  format := "format"
  wrapInDirectory := false
  archiveName := "archive_name"
  checksumName := "checksum_name"
  supported := ["platform"]
  excluded := ["platform"]
  formatOverrides := []
  replacements := []

/-- A piece of a line, the values of which are names of variables. -/
def Piece.part : Piece → Part
  | fixed s => .fixed s
  | value name => .value [name]

/-- Lines, the values of which are names of variables. -/
def partsOf (lines : List Line) : List Part :=
  lines.flatMap fun l => l.map Piece.part ++ [.fixed "\n"]

def headingParts : List Part :=
  partsOf (fixed ["#!/bin/sh", "set -e"]) ++
  [.fixed "# Code generated by binfetch ", .value ["binfetch_version"],
    .choice ["generated_at"] [.fixed " on ", .value ["generated_at"]] [],
    .fixed ". DO NOT EDIT.\n"] ++
  partsOf (fixed ["#", ""])

def downloadParts : List Part :=
  partsOf (fixed download) ++
  [.choice ["wrap_in_directory"] (partsOf (sourceDirectory true)) (partsOf (sourceDirectory false))] ++
  partsOf (fixed extraction)

/-- The template up to the check of the binaries. -/
def openingParts : List Part :=
  headingParts ++ partsOf (usage named) ++ partsOf arguments ++ downloadParts

def noBinaries : String := "there are no binaries to install"

/-- There have to be binaries. -/
def binaryCheck : Part := .choice ["binaries"] [] [.refusal noBinaries]

def installationParts : List Part :=
  [.fixed "  for binexe in ",
    .each "binary" ["binaries"] [.fixed "\"", .value ["binary"], .fixed "\" "],
    .fixed "; do\n"] ++
  partsOf (fixed installation)

/-- A `case` statement with an arm for each item of a list. -/
def caseParts (subject name : String) (path : List String) (arm : List Part) : List Part :=
  partsOf (fixed ["  case " ++ subject ++ " in"]) ++ [.each name path arm] ++
    partsOf (fixed ["  esac"])

/-- A `case` statement that is left out for an empty list. -/
def optionalCaseParts (subject name : String) (path : List String) (arm : List Part) : List Part :=
  [.choice path (caseParts subject name path arm) []]

def platformArmParts (found : String) : List Part := partsOf [platformArm found "platform"]

def platformCheckParts : List Part :=
  partsOf (fixed ["is_supported_platform() \x7b", "  platform=$1", "  found=1"]) ++
  caseParts "\"$platform\"" "platform" ["matrix", "supported"] (platformArmParts "0") ++
  optionalCaseParts "\"$platform\"" "platform" ["matrix", "excluded"] (platformArmParts "1") ++
  partsOf (fixed ["  return $found", "\x7d"])

def assignmentArmParts (name : String) : List Part :=
  [.fixed "    ", .value ["arm", "pattern"], .fixed (") " ++ name ++ "="), .value ["arm", "value"],
    .fixed " ;;\n"]

def adjustmentParts (opening : List String) (subject name : String) (path : List String) :
    List Part :=
  partsOf (fixed opening) ++ optionalCaseParts subject "arm" path (assignmentArmParts name) ++
    partsOf (fixed ["  true", "\x7d"])

def adjustmentsParts : List Part :=
  adjustmentParts ["adjust_format() \x7b", "  # change format (tar.gz or zip) based on OS"]
    "$\x7bOS\x7d" "FORMAT" ["adjustments", "format_overrides"] ++
  adjustmentParts ["adjust_os() \x7b", "  # adjust archive name based on OS"]
    "$\x7bOS\x7d" "OS" ["adjustments", "replacements"] ++
  adjustmentParts ["adjust_arch() \x7b", "  # adjust archive name based on ARCH"]
    "$\x7bARCH\x7d" "ARCH" ["adjustments", "replacements"]

/-- The template after the check of the binaries. -/
def closingParts : List Part :=
  installationParts ++ platformCheckParts ++ partsOf release ++ adjustmentsParts ++
    partsOf toolbox ++ partsOf (settings named) ++ partsOf (steps named)

def template : List Part := openingParts ++ binaryCheck :: closingParts

/-- The script for the given values. Its lines end in `LF`, also those that a value brings along. -/
def fill (values : Scope) : Except Template.Fault String :=
  (Template.render values template).map fun text => String.ofList (unixNewlines text)

end ReleaseInstaller.Installer
