import QmlDoc.Disk.Tree
import QmlDoc.Main
import QmlDoc.Proofs.ArrangedOrder
import QmlDoc.Proofs.BraceBalance
import QmlDoc.Proofs.ReadOutline
import QmlDoc.Proofs.BlockEnds
import QmlDoc.Proofs.ReadErrors
import QmlDoc.Proofs.TypeAnnotations
import QmlDoc.Proofs.PrintedMembers
import QmlDoc.Proofs.BodyComments
import QmlDoc.Proofs.NestedObjects
import QmlDoc.Proofs.LiteralPattern
import QmlDoc.Proofs.BaseAliases
import QmlDoc.Proofs.BodyLayout
import QmlDoc.Proofs.LineBlocks
import QmlDoc.Proofs.LexemeWords
import QmlDoc.Proofs.TokenPlaces
import QmlDoc.Proofs.ScanEnumeration
import QmlDoc.Proofs.ArrangedNotes
import QmlDoc.Proofs.EnumerationNotes
import QmlDoc.Proofs.CommentFree
import QmlDoc.Proofs.ArgumentGrammar
import QmlDoc.Proofs.DefaultValues
import QmlDoc.Proofs.TypeMarks
import QmlDoc.Proofs.MovedTypes
import QmlDoc.Proofs.HeaderLines
import QmlDoc.Proofs.ObjectLines
import QmlDoc.Proofs.ModuleEntries
import QmlDoc.Proofs.TypeIdentity
import QmlDoc.Proofs.EnumerationLayout
import QmlDoc.Proofs.EnumerationConstants
import QmlDoc.Proofs.PropertyNames
import QmlDoc.Proofs.LocalReading
import QmlDoc.Proofs.AttributeValues
import QmlDoc.Proofs.Excerpts
import QmlDoc.Proofs.Passages
import QmlDoc.Proofs.ReaderTrail
import QmlDoc.Proofs.RepeatedWriting
import QmlDoc.Proofs.NearestModule
