import SuiteDriver.Main
import SuiteDriver.Rehearsal.Script
import SuiteDriver.Proofs.Arrangements
import SuiteDriver.Proofs.DryRun
import SuiteDriver.Proofs.EarlyLanguage
import SuiteDriver.Proofs.Launches
import SuiteDriver.Proofs.ShownLine
import SuiteDriver.Proofs.Stages
import SuiteDriver.Proofs.Status
import SuiteDriver.Proofs.Trace
import SuiteDriver.Proofs.EveryWord
import SuiteDriver.Proofs.FileContents
import SuiteDriver.Proofs.OneLanguage
import SuiteDriver.Proofs.Overridden
import SuiteDriver.Proofs.DistinctKeys
import SuiteDriver.Proofs.Schema
import SuiteDriver.Proofs.FilesKept
import SuiteDriver.Proofs.DirectoryPart
import SuiteDriver.Proofs.OneRoot
import SuiteDriver.Proofs.WrittenText
import SuiteDriver.Proofs.WrittenLines
import SuiteDriver.Proofs.ReadBack
import SuiteDriver.Proofs.VariantNames
import SuiteDriver.Proofs.FileAdded
import SuiteDriver.Proofs.Initialised
import SuiteDriver.Proofs.SideBySide
import SuiteDriver.Proofs.LaunchModes
import SuiteDriver.Proofs.FreshConfig
import SuiteDriver.Proofs.DottedPath
import SuiteDriver.Proofs.FilledPlaces
import SuiteDriver.Proofs.Discovery
import SuiteDriver.Proofs.RealLocations
import SuiteDriver.Proofs.Expansion
import SuiteDriver.Proofs.StableDirectory
import SuiteDriver.Proofs.MovedSpans
import SuiteDriver.Proofs.ReadInLine
import SuiteDriver.Proofs.Sheets
import SuiteDriver.Proofs.LeastOffender
import SuiteDriver.Proofs.RowOrder
import SuiteDriver.Proofs.LocaleFallback
import SuiteDriver.Proofs.Decoration
import SuiteDriver.Proofs.WhatIsLeft
import SuiteDriver.Proofs.ReportedPlace
import SuiteDriver.Proofs.ReportViews
import SuiteDriver.Proofs.Rounding
import SuiteDriver.Proofs.ShownDurations
