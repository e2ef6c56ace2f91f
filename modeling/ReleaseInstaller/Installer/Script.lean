import ReleaseInstaller.Installer.Cases
import ReleaseInstaller.Installer.Opening
import ReleaseInstaller.Installer.Toolbox
import ReleaseInstaller.Text.Basic

/-! The installer as a shell script. -/
namespace ReleaseInstaller.Installer
open Text

/-- The variables of the release. -/
def settings (i : Installer) : List Line :=
  [[.fixed "PROJECT_NAME=\"", .value i.projectName, .fixed "\""],
   [.fixed "OWNER=", .value i.owner],
   [.fixed "REPO=\"", .value i.repo, .fixed "\""],
   [.fixed "BINARY=", .value i.binary],
   [.fixed "FORMAT=", .value i.format]]

/-- The steps that lead to the installation. -/
def steps (i : Installer) : List Line :=
  fixed [
    "OS=$(uname_os)",
    "ARCH=$(uname_arch)",
    "PREFIX=\"$OWNER/$REPO\"",
    "",
    "# use in logging routines",
    "log_prefix() \x7b",
    "  echo \"$PREFIX\"",
    "\x7d",
    "PLATFORM=\"$\x7bOS\x7d/$\x7bARCH\x7d\"",
    "GITHUB_DOWNLOAD=https://github.com/$\x7bOWNER\x7d/$\x7bREPO\x7d/releases/download",
    "",
    "uname_os_check \"$OS\"",
    "uname_arch_check \"$ARCH\"",
    "",
    "parse_args \"$@\"",
    "",
    "check_platform",
    "",
    "tag_to_version",
    "",
    "adjust_format",
    "",
    "adjust_os",
    "",
    "adjust_arch",
    "",
    "log_info \"found version: $\x7bVERSION\x7d for $\x7bTAG\x7d/$\x7bOS\x7d/$\x7bARCH\x7d\"",
    ""] ++
  [[.value i.archiveName]] ++
  fixed [
    "TARBALL=$\x7bNAME\x7d.$\x7bFORMAT\x7d",
    "TARBALL_URL=$\x7bGITHUB_DOWNLOAD\x7d/$\x7bTAG\x7d/$\x7bTARBALL\x7d"] ++
  [[.value i.checksumName]] ++
  fixed [
    "CHECKSUM_URL=$\x7bGITHUB_DOWNLOAD\x7d/$\x7bTAG\x7d/$\x7bCHECKSUM\x7d",
    "",
    "",
    "execute"]

def lines (i : Installer) : List Line :=
  heading i ++ usage i ++ arguments ++ execution i ++ platformCheck i ++ release ++
    adjustments i ++ toolbox ++ settings i ++ steps i

/-- The text of the script. Its lines end in `LF`, also those that a value brings along. -/
def script (i : Installer) : String := String.ofList (unixNewlines (textOf (lines i)))

end ReleaseInstaller.Installer
