import ReleaseInstaller.Bundle
import ReleaseInstaller.Template
import ReleaseInstaller.Main
import ReleaseInstaller.Proofs.Generation.Frame
import ReleaseInstaller.Proofs.Generation.Recheck
import ReleaseInstaller.Proofs.Generation.Redating
import ReleaseInstaller.Proofs.Generation.Repetition
import ReleaseInstaller.Proofs.Generation.Run
import ReleaseInstaller.Proofs.Installer.Insertion
import ReleaseInstaller.Proofs.Installer.Recovery
import ReleaseInstaller.Proofs.Installer.Rendering
import ReleaseInstaller.Proofs.Installer.Verdict
import ReleaseInstaller.Proofs.NameTemplate.Actions
import ReleaseInstaller.Proofs.NameTemplate.Meaning
import ReleaseInstaller.Proofs.Project.Conformity
import ReleaseInstaller.Proofs.Project.RoundTrip
import ReleaseInstaller.Proofs.Release.Repository
import ReleaseInstaller.Proofs.NameTemplate.Nesting
import ReleaseInstaller.Proofs.NameTemplate.Tree
import ReleaseInstaller.Proofs.NameTemplate.Balance
import ReleaseInstaller.Proofs.Text.Span
import ReleaseInstaller.Proofs.NameTemplate.Places
import ReleaseInstaller.Proofs.NameTemplate.Spelling
import ReleaseInstaller.Proofs.NameTemplate.Distinction
import ReleaseInstaller.Proofs.NameTemplate.Concatenation
import ReleaseInstaller.Proofs.Platform.Matrix
import ReleaseInstaller.Proofs.Script.Agreement
import ReleaseInstaller.Proofs.Generation.Acceptance
import ReleaseInstaller.Proofs.Repo.Spelling
import ReleaseInstaller.Proofs.Installer.Adjustment
import ReleaseInstaller.Proofs.Url.Address
import ReleaseInstaller.Proofs.Repo.Path
import ReleaseInstaller.Proofs.Repo.Address
import ReleaseInstaller.Proofs.Repo.OtherHost
import ReleaseInstaller.Proofs.Remote.Discovery
import ReleaseInstaller.Proofs.Release.Completion
import ReleaseInstaller.Proofs.Project.Numerals
import ReleaseInstaller.Proofs.Release.Suspects
import ReleaseInstaller.Proofs.Installer.Strictness
import ReleaseInstaller.Proofs.Bundle
import ReleaseInstaller.Proofs.NameTemplate.Folding
