import ModeAcl.Acl.Files
import ModeAcl.Main
import ModeAcl.Native
import ModeAcl.Proofs.Applying
import ModeAcl.Proofs.Footprint
import ModeAcl.Proofs.Reading
import ModeAcl.Proofs.Running
import ModeAcl.Proofs.Triads
import ModeAcl.Proofs.Rights
import ModeAcl.Sid.Bytes
import ModeAcl.Sid.Text
import ModeAcl.World
import ModeAcl.Proofs.Memory
import ModeAcl.Proofs.WriteThenRead
import ModeAcl.Proofs.LastPut
import ModeAcl.Proofs.Tree
import ModeAcl.Proofs.Walking
import ModeAcl.Proofs.OpenUndone
import ModeAcl.Proofs.PlainPaths
import ModeAcl.Proofs.PlainWalks
import ModeAcl.Proofs.SameShape
import ModeAcl.Proofs.Agreement
import ModeAcl.Proofs.AgreeingRuns
import ModeAcl.Proofs.Ancestors
import ModeAcl.Proofs.Arriving
import ModeAcl.Proofs.Creating
import ModeAcl.Proofs.Deeds
import ModeAcl.Proofs.MkdirFootprint
import ModeAcl.Proofs.Interleaving
import ModeAcl.Proofs.Growing
import ModeAcl.Proofs.MkdirAmongOthers
import ModeAcl.Proofs.ConcurrentMkdir
import ModeAcl.Proofs.HiddenFailures
import ModeAcl.Proofs.ConcurrentOpen
import ModeAcl.Proofs.Stages
import ModeAcl.Proofs.FirstFailure
import ModeAcl.Proofs.Classified
import ModeAcl.Proofs.Harm
import ModeAcl.Proofs.HarmedDirectory
import ModeAcl.Proofs.FailuresUndone
import ModeAcl.Proofs.BinaryForm
import ModeAcl.Proofs.Numerals
import ModeAcl.Proofs.TextForm
import ModeAcl.Proofs.NumeralGrammar
import ModeAcl.Proofs.AcceptedTexts
import ModeAcl.Proofs.OctalModes
import ModeAcl.Proofs.FileContents
import ModeAcl.Proofs.PlainOpening
import ModeAcl.Proofs.FailureKinds
import ModeAcl.Proofs.GrantedEntries
import ModeAcl.Proofs.CommandLines
import ModeAcl.Proofs.OperandsInTurn
import ModeAcl.Proofs.ModesShown
import ModeAcl.Proofs.NestedErrors
